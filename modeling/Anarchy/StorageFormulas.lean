import Anarchy.BoundedVec

/-!
The storage pallet's pure helpers: `rewards.rs`, `pow.rs` and `rate_limit.rs`.
Amounts are `u128`, counters `u32` and scores `u64`, all as natural numbers
with the source's saturating operations. `none` marks a call on which the
Rust code aborts (a division by zero after the wrapped initial guess).
-/

namespace Anarchy

def u32Max : Nat := maxOf 32
def u64Max : Nat := maxOf 64
def u128Max : Nat := maxOf 128

namespace StorageFormulas

/-! rewards.rs -/

/-- One pass of the `while z < y` loop per call. -/
def sqrtPpmLoop (scaled z y : Nat) : Option Nat :=
  if z < y then
    if z = 0 then none
    else sqrtPpmLoop scaled ((scaled / z + z) % 2 ^ 128 / 2) z
  else some y
termination_by y

def sqrtPpm (xPpm : Nat) : Option Nat :=
  let scaled := satMul u128Max xPpm 1000000
  if scaled = 0 then some 0
  else sqrtPpmLoop scaled ((scaled + 1) % 2 ^ 128 / 2) scaled

/-- Linear decay by `pool_balance / pool_target`; a zero target turns it off. -/
def poolDecay (reward poolBalance poolTarget : Nat) : Nat :=
  if poolTarget > 0 then
    let poolRatioPpm :=
      if poolBalance ≥ poolTarget then 1000000
      else satMul u128Max poolBalance 1000000 / max poolTarget 1
    satMul u128Max reward poolRatioPpm / 1000000
  else reward

/-- The `√(bond_share)` correction; it is off when no bond is established. -/
def bondCorrection (reward nodeBond totalActiveBond : Nat) : Option Nat :=
  if totalActiveBond > 0 ∧ nodeBond > 0 then
    let bondSharePpm := satMul u128Max nodeBond 1000000 / max totalActiveBond 1
    (sqrtPpm bondSharePpm).map fun sqrtSharePpm =>
      satMul u128Max reward sqrtSharePpm / 1000000
  else some reward

def calculateRewardV3 (dataSize baseRewardPerByte score threshold poolBalance poolTarget
    nodeBond totalActiveBond : Nat) : Option Nat :=
  if score < threshold then some 0
  else
    let reward := satMul u128Max baseRewardPerByte dataSize
    bondCorrection (poolDecay reward poolBalance poolTarget) nodeBond totalActiveBond

/-! pow.rs -/

def maxDifficulty : Nat := 24

/-- The quotient is cut to a `u8` before the saturating addition. -/
def calculateDifficulty (recentRegistrations baseDifficulty : Nat) : Nat :=
  min (satAdd (maxOf 8) baseDifficulty (recentRegistrations / 5 % 2 ^ 8)) maxDifficulty

def leadingZeros (byte : UInt8) : Nat :=
  if byte = 0 then 8 else 7 - byte.toNat.log2

def countLeadingZeroBits : List UInt8 → Nat → Nat
  | [], count => count
  | byte :: rest, count =>
      if byte = 0 then countLeadingZeroBits rest (satAdd (maxOf 8) count 8)
      else satAdd (maxOf 8) count (leadingZeros byte)

/-- Little-endian bytes of a `u64`. -/
def toLeBytes (value : Nat) : List UInt8 :=
  (List.range 8).map fun position => UInt8.ofNat (value / 2 ^ (8 * position) % 2 ^ 8)

def computePowHash (blake2_256 : List UInt8 → List UInt8) (peerId : List UInt8) (nonce : Nat) :
    List UInt8 := blake2_256 (peerId ++ toLeBytes nonce)

def verifyPow (blake2_256 : List UInt8 → List UInt8) (peerId : List UInt8)
    (nonce difficulty : Nat) : Bool :=
  countLeadingZeroBits (computePowHash blake2_256 peerId nonce) 0 ≥ difficulty

/-! rate_limit.rs. The two limits are one comparison and one increment. -/

def belowLimit (currentCount maxPerBlock : Nat) : Bool := currentCount < maxPerBlock

def incrementCount (currentCount : Nat) : Nat := satAdd u32Max currentCount 1

def canRegisterNode (currentCount maxPerBlock : Nat) : Bool := belowLimit currentCount maxPerBlock

def canDeclareHolding (currentCount maxPerBlockPerNode : Nat) : Bool :=
  belowLimit currentCount maxPerBlockPerNode

def incrementRegistrationCount (currentCount : Nat) : Nat := incrementCount currentCount

def incrementDeclarationCount (currentCount : Nat) : Nat := incrementCount currentCount

end StorageFormulas
end Anarchy
