import Anarchy.History

/-!
`kzg.rs`: the opening check `e(C - [y]₁, [1]₂) = e(π, [τ]₂ - [x]₂)` over an
abstract pairing engine. The engine stands for the curve library; nothing is
assumed about it here. Inputs have the lengths their callers checked.
-/

namespace Anarchy.KzgVerify

/-- The operations of the BLS12-381 library that the check calls. -/
structure PairingEngine where
  Fr : Type
  G1 : Type
  G2 : Type
  GT : Type
  sameGT : DecidableEq GT
  g1Deserialize : List UInt8 → Option G1
  g2Deserialize : List UInt8 → Option G2
  frFromNat : Nat → Fr
  frFromLeBytesModOrder : List UInt8 → Fr
  g1Generator : G1
  g2Generator : G2
  g1Mul : G1 → Fr → G1
  g1Sub : G1 → G1 → G1
  g2Mul : G2 → Fr → G2
  g2Sub : G2 → G2 → G2
  pairing : G1 → G2 → GT

inductive KzgVerifyError where
  | invalidCommitment
  | invalidProof
  | invalidShareValue
  | invalidTauG2
  | verificationFailed
  deriving DecidableEq

/-- `[τ]₂` of the Ethereum ceremony, compressed. -/
def tauG2Bytes : List UInt8 := [
  0xb5, 0xbf, 0xd7, 0xdd, 0x8c, 0xde, 0xb1, 0x28,
  0x84, 0x3b, 0xc2, 0x87, 0x23, 0x0a, 0xf3, 0x89,
  0x26, 0x18, 0x70, 0x75, 0xcb, 0xfb, 0xef, 0xa8,
  0x10, 0x09, 0xa2, 0xce, 0x61, 0x5a, 0xc5, 0x3d,
  0x29, 0x14, 0xe5, 0x87, 0x0c, 0xb4, 0x52, 0xd2,
  0xaf, 0xaa, 0xab, 0x24, 0xf3, 0x49, 0x9f, 0x72,
  0x18, 0x5c, 0xbf, 0xee, 0x53, 0x49, 0x27, 0x14,
  0x73, 0x44, 0x29, 0xb7, 0xb3, 0x86, 0x08, 0xe2,
  0x39, 0x26, 0xc9, 0x11, 0xcc, 0xec, 0xea, 0xc9,
  0xa3, 0x68, 0x51, 0x47, 0x7b, 0xa4, 0xc6, 0x0b,
  0x08, 0x70, 0x41, 0xde, 0x62, 0x10, 0x00, 0xed,
  0xc9, 0x8e, 0xda, 0xda, 0x20, 0xc1, 0xde, 0xf2]

def verifyKzgProof (engine : PairingEngine) (commitment : List UInt8) (index : UInt8)
    (shareValue proof : List UInt8) : Except KzgVerifyError Bool := do
  let c ← okOr (engine.g1Deserialize commitment) .invalidCommitment
  let pi ← okOr (engine.g1Deserialize proof) .invalidProof
  let tauG2 ← okOr (engine.g2Deserialize tauG2Bytes) .invalidTauG2
  let y := engine.frFromLeBytesModOrder shareValue
  let x := engine.frFromNat index.toNat
  let cMinusY := engine.g1Sub c (engine.g1Mul engine.g1Generator y)
  let tauMinusX := engine.g2Sub tauG2 (engine.g2Mul engine.g2Generator x)
  let left := engine.pairing cMinusY engine.g2Generator
  let right := engine.pairing pi tauMinusX
  return (engine.sameGT left right).decide

end Anarchy.KzgVerify
