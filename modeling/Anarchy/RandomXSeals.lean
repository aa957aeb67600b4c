import Anarchy.ByteReader
import Anarchy.History
import Mathlib.Tactic.Common

/-!
The proof-of-work seal of a block: its encoding, the RandomX machine behind the
verifier, and the miner's side. The verifier decodes a seal from the front of the
bytes and looks at its nonce alone, so whether it accepts is decided before the
rest of the seal is read. RandomX itself is a parameter: a machine is built for a
key, or building it fails, and it hashes to 32 bytes, or fails.
-/

namespace Anarchy.RandomXSeals

open ByteReader LittleEndian

structure PowSeal where
  nonce : BitVec 64
  work : Vector UInt8 32
  deriving DecidableEq

namespace PowSeal

def encode (sealed : PowSeal) : List UInt8 := bytes 8 sealed.nonce.toNat ++ sealed.work.toList

/-- SCALE reads the two fields from the front and leaves what follows them. -/
def decode (input : List UInt8) : Option PowSeal := do
  let (nonce, rest) ← readNat 8 input
  let (work, _) ← readVector 32 rest
  return ⟨BitVec.ofNat 64 nonce, work⟩

theorem decode_encode (sealed : PowSeal) (trailing : List UInt8) :
    decode (sealed.encode ++ trailing) = some sealed := by
  have small : sealed.nonce.toNat < 256 ^ 8 := sealed.nonce.isLt
  have number := readNat_bytes 8 sealed.nonce.toNat (sealed.work.toList ++ trailing) small
  have field := readVector_append sealed.work trailing
  simp [decode, encode, number, field]

end PowSeal

/-- The library: `RandomXVM` with its cache or dataset, and the hash of an input. -/
structure RandomX (Vm : Type) where
  newVm : List UInt8 → Bool → Except String Vm
  calculateHash : Vm → List UInt8 → Except String (Vector UInt8 32)

variable {Vm : Type} (randomx : RandomX Vm)

structure RandomXVm where
  currentKey : List UInt8
  fullMode : Bool
  vm : Vm
  built : randomx.newVm currentKey fullMode = .ok vm

variable {randomx}

namespace RandomXVm

def new (key : List UInt8) (fullMode : Bool) : Except String (RandomXVm randomx) :=
  match built : randomx.newVm key fullMode with
  | .ok vm => .ok ⟨key, fullMode, vm, built⟩
  | .error error => .error error

def ensureKey (vm : RandomXVm randomx) (key : List UInt8) : Except String (RandomXVm randomx) :=
  if vm.currentKey = key then .ok vm else new key vm.fullMode

def hash (vm : RandomXVm randomx) (input : List UInt8) : List UInt8 :=
  match randomx.calculateHash vm.vm input with
  | .ok work => work.toList
  | .error _ => []

theorem new_ok {key : List UInt8} {fullMode : Bool} {vm : RandomXVm randomx}
    (success : new key fullMode = .ok vm) : vm.currentKey = key ∧ vm.fullMode = fullMode := by
  rw [new] at success
  split at success
  · cases success
    exact ⟨rfl, rfl⟩
  · cases success

theorem new_built {key : List UInt8} {fullMode : Bool} {vm : Vm}
    (built : randomx.newVm key fullMode = .ok vm) :
    new key fullMode = .ok (⟨key, fullMode, vm, built⟩ : RandomXVm randomx) := by
  rw [new]
  split
  · rename_i found again
    rw [built] at again
    cases again
    rfl
  · rename_i error failed
    rw [built] at failed
    cases failed

theorem ensureKey_ok {vm ready : RandomXVm randomx} {key : List UInt8}
    (success : vm.ensureKey key = .ok ready) :
    ready.currentKey = key ∧ ready.fullMode = vm.fullMode := by
  rw [ensureKey] at success
  split at success
  · rename_i same
    cases success
    exact ⟨same, rfl⟩
  · exact new_ok success

/-- Whatever key the machine had, it is ready for another when one can be built for that. -/
theorem ensureKey_built {vm : RandomXVm randomx} {key : List UInt8} {made : Vm}
    (built : randomx.newVm key vm.fullMode = .ok made) :
    vm.ensureKey key = .ok ⟨key, vm.fullMode, made, built⟩ := by
  rw [ensureKey]
  split
  · rename_i same
    obtain ⟨current, fullMode, held, holds⟩ := vm
    simp only at same built
    subst same
    rw [holds] at built
    cases built
    rfl
  · exact new_built built

end RandomXVm

def U256_MAX : Nat := 2 ^ 256 - 1

/-- `U256::from_big_endian`. -/
def fromBigEndian (digits : List UInt8) : Nat := value digits.reverse

/-- `pre_hash || nonce`, the nonce in little-endian. -/
def powInput (preHash : Vector UInt8 32) (nonce : BitVec 64) : List UInt8 :=
  preHash.toList ++ bytes 8 nonce.toNat

inductive PowError
  | sealDecode
  | lockPoisoned
  | ensureKey (error : String)
  | emptyHash
  deriving DecidableEq

variable (randomx) in
/-- The verifier of a node: the seed key and the one machine, `none` once its lock is poisoned. -/
structure RandomXAlgorithm where
  genesisHash : Vector UInt8 32
  vm : Option (RandomXVm randomx)

namespace RandomXAlgorithm
variable (algorithm : RandomXAlgorithm randomx) (preHash : Vector UInt8 32) (difficulty : Nat)

def verify (encoded : List UInt8) : RandomXAlgorithm randomx × Except PowError Bool :=
  match PowSeal.decode encoded with
  | none => (algorithm, .error .sealDecode)
  | some sealed =>
      match algorithm.vm with
      | none => (algorithm, .error .lockPoisoned)
      | some vm =>
          match vm.ensureKey algorithm.genesisHash.toList with
          | .error error => (algorithm, .error (.ensureKey error))
          | .ok ready =>
              let workHashBytes := ready.hash (powInput preHash sealed.nonce)
              ({ algorithm with vm := some ready },
                if workHashBytes = [] then .error .emptyHash
                else if difficulty = 0 then .ok false
                else .ok (decide (fromBigEndian workHashBytes ≤ U256_MAX / difficulty)))

def Accepts (encoded : List UInt8) : Prop :=
  (algorithm.verify preHash difficulty encoded).2 = .ok true

/-- The RandomX hash of the block with this nonce, under the seed key of the chain. -/
def workHash (nonce : BitVec 64) : Option (Vector UInt8 32) := do
  let vm ← algorithm.vm
  let made ← (randomx.newVm algorithm.genesisHash.toList vm.fullMode).toOption
  (randomx.calculateHash made (powInput preHash nonce)).toOption

/-- The nonce solves the block: its hash meets the target of the difficulty. -/
def Solves (nonce : BitVec 64) : Prop :=
  ∃ work, algorithm.workHash preHash nonce = some work ∧ difficulty ≠ 0 ∧
    fromBigEndian work.toList ≤ U256_MAX / difficulty

/-- The seal carries the nonce. -/
def Carries (encoded : List UInt8) (nonce : BitVec 64) : Prop :=
  ∃ work, PowSeal.decode encoded = some ⟨nonce, work⟩

variable {algorithm preHash difficulty}

theorem workHash_some {nonce : BitVec 64} {work : Vector UInt8 32} :
    algorithm.workHash preHash nonce = some work ↔
      ∃ vm made, algorithm.vm = some vm ∧
        randomx.newVm algorithm.genesisHash.toList vm.fullMode = .ok made ∧
          randomx.calculateHash made (powInput preHash nonce) = .ok work := by
  constructor
  · intro found
    simp only [workHash, Option.bind_eq_bind, Option.bind_eq_some_iff] at found
    obtain ⟨vm, held, made, built, hashed⟩ := found
    exact ⟨vm, made, held, toOption_some built, toOption_some hashed⟩
  · rintro ⟨vm, made, held, built, hashed⟩
    simp [workHash, held, built, hashed, Except.toOption]

theorem toList_ne_nil (work : Vector UInt8 32) : work.toList ≠ [] := by
  intro empty
  have size : work.toList.length = 32 := Vector.length_toList
  rw [empty] at size
  cases size

/-- The verifier decides by the nonce that it finds in front. -/
theorem accepts_decoded {encoded : List UInt8} {sealed : PowSeal}
    (decoded : PowSeal.decode encoded = some sealed) :
    algorithm.Accepts preHash difficulty encoded ↔
      algorithm.Solves preHash difficulty sealed.nonce := by
  constructor
  · intro accepted
    rw [Accepts, verify, decoded] at accepted
    simp only at accepted
    split at accepted
    · cases accepted
    · rename_i vm held
      split at accepted
      · cases accepted
      · -- the machine may be built anew, for the same key
        rename_i ready ensured
        have sameKey := RandomXVm.ensureKey_ok ensured
        have built := ready.built
        rw [sameKey.1, sameKey.2] at built
        simp only at accepted
        cases hashed : randomx.calculateHash ready.vm (powInput preHash sealed.nonce) with
        | error error => simp [RandomXVm.hash, hashed] at accepted
        | ok work =>
            simp only [RandomXVm.hash, hashed, if_neg (toList_ne_nil work)] at accepted
            split at accepted
            · cases accepted
            · rename_i nonzero
              have small : fromBigEndian work.toList ≤ U256_MAX / difficulty := by
                simpa using accepted
              exact ⟨work, workHash_some.mpr ⟨vm, ready.vm, held, built, hashed⟩, nonzero, small⟩
  · rintro ⟨work, hashed, nonzero, small⟩
    obtain ⟨vm, made, held, built, computed⟩ := workHash_some.mp hashed
    rw [Accepts, verify, decoded]
    simp only [held, RandomXVm.ensureKey_built built, RandomXVm.hash, computed,
      if_neg (toList_ne_nil work), if_neg nonzero, decide_eq_true small]

theorem accepts_iff {encoded : List UInt8} :
    algorithm.Accepts preHash difficulty encoded ↔
      ∃ sealed, PowSeal.decode encoded = some sealed ∧
        algorithm.Solves preHash difficulty sealed.nonce := by
  constructor
  · intro accepted
    cases decoded : PowSeal.decode encoded with
    | none =>
        rw [Accepts, verify, decoded] at accepted
        cases accepted
    | some sealed => exact ⟨sealed, rfl, (accepts_decoded decoded).mp accepted⟩
  · rintro ⟨sealed, decoded, solves⟩
    exact (accepts_decoded decoded).mpr solves

/-- With a solved nonce every work field and every trailing byte makes an accepted seal. -/
theorem solved_resealed {nonce : BitVec 64}
    (solves : algorithm.Solves preHash difficulty nonce) (work : Vector UInt8 32)
    (trailing : List UInt8) :
    algorithm.Accepts preHash difficulty ((PowSeal.mk nonce work).encode ++ trailing) :=
  (accepts_decoded (PowSeal.decode_encode ⟨nonce, work⟩ trailing)).mpr solves

/-- A call leaves the verdicts as they were: it may only build the machine anew, for the key
of the chain and in the mode it had. -/
theorem verify_solves (encoded : List UInt8) {other : Vector UInt8 32} {target : Nat}
    {nonce : BitVec 64} :
    (algorithm.verify preHash difficulty encoded).1.Solves other target nonce ↔
      algorithm.Solves other target nonce := by
  have same : (algorithm.verify preHash difficulty encoded).1.workHash other nonce =
      algorithm.workHash other nonce := by
    rw [verify]
    split
    · rfl
    · split
      · rfl
      · rename_i vm held
        split
        · rfl
        · rename_i ready ensured
          simp [workHash, held, (RandomXVm.ensureKey_ok ensured).2]
  simp only [Solves, same]

theorem verify_accepts (encoded later : List UInt8) {other : Vector UInt8 32} {target : Nat} :
    (algorithm.verify preHash difficulty encoded).1.Accepts other target later ↔
      algorithm.Accepts other target later := by
  simp only [accepts_iff, verify_solves]

/-- At difficulty one every hash meets the target. -/
theorem solves_easiest {nonce : BitVec 64} {work : Vector UInt8 32}
    (hashed : algorithm.workHash preHash nonce = some work) : algorithm.Solves preHash 1 nonce := by
  have bound := value_lt work.toList.reverse
  rw [List.length_reverse, Vector.length_toList] at bound
  refine ⟨work, hashed, Nat.one_ne_zero, ?_⟩
  rw [fromBigEndian, U256_MAX, Nat.div_one]
  omega

end RandomXAlgorithm

section Miner

/-- One round of the mining loop. `H256::from_slice` does not take a hash that failed. -/
def mineSeal (vm : RandomXVm randomx) (preHash : Vector UInt8 32) (difficulty : Nat)
    (nonce : BitVec 64) : Option (List UInt8) := do
  guard (difficulty ≠ 0)
  let work := vm.hash (powInput preHash nonce)
  guard (fromBigEndian work ≤ U256_MAX / difficulty)
  let work ← toVector 32 work
  return (PowSeal.mk nonce work).encode

/-- What the miner submits is accepted, and carries the nonce with the hash of the work. -/
theorem mineSeal_accepted {vm held : RandomXVm randomx} {algorithm : RandomXAlgorithm randomx}
    {preHash : Vector UInt8 32} {difficulty : Nat} {nonce : BitVec 64} {encoded : List UInt8}
    (key : vm.currentKey = algorithm.genesisHash.toList) (mode : held.fullMode = vm.fullMode)
    (shared : algorithm.vm = some held)
    (mined : mineSeal vm preHash difficulty nonce = some encoded) :
    algorithm.Accepts preHash difficulty encoded ∧
      ∃ work, algorithm.workHash preHash nonce = some work ∧
        PowSeal.decode encoded = some ⟨nonce, work⟩ := by
  simp only [mineSeal, Option.bind_eq_bind, Option.bind_eq_some_iff, Option.guard_eq_some'] at mined
  obtain ⟨_, nonzero, _, small, work, sized, same⟩ := mined
  cases same
  have bytesOfWork := toVector_some sized
  have built := vm.built
  rw [key, ← mode] at built
  cases hashed : randomx.calculateHash vm.vm (powInput preHash nonce) with
  | error error =>
      rw [RandomXVm.hash, hashed] at bytesOfWork
      exact absurd bytesOfWork (RandomXAlgorithm.toList_ne_nil work)
  | ok result =>
      have hash : vm.hash (powInput preHash nonce) = result.toList := by
        rw [RandomXVm.hash, hashed]
      rw [hash, toVector_toList] at sized
      cases sized
      have real : algorithm.workHash preHash nonce = some work :=
        RandomXAlgorithm.workHash_some.mpr ⟨held, vm.vm, shared, built, hashed⟩
      have decoded := PowSeal.decode_encode ⟨nonce, work⟩ []
      rw [List.append_nil] at decoded
      rw [hash] at small
      exact ⟨(RandomXAlgorithm.accepts_decoded decoded).mpr ⟨work, real, nonzero, small⟩,
        work, real, decoded⟩

end Miner

section Uniqueness

/-- One nonce makes one seal: any two accepted seals that carry it are the same bytes, with
the hash of the work in them. -/
def SealUnique (algorithm : RandomXAlgorithm randomx) (preHash : Vector UInt8 32)
    (difficulty : Nat) (nonce : BitVec 64) : Prop :=
  ∀ first second, algorithm.Accepts preHash difficulty first →
    algorithm.Accepts preHash difficulty second → RandomXAlgorithm.Carries first nonce →
      RandomXAlgorithm.Carries second nonce →
        first = second ∧ ∃ work, algorithm.workHash preHash nonce = some work ∧
          PowSeal.decode first = some ⟨nonce, work⟩

/-- A third party takes the seal of a mined block and puts a byte behind it. -/
theorem solved_not_unique {algorithm : RandomXAlgorithm randomx} {preHash : Vector UInt8 32}
    {difficulty : Nat} {nonce : BitVec 64} (solves : algorithm.Solves preHash difficulty nonce) :
    ¬ SealUnique algorithm preHash difficulty nonce := by
  intro unique
  let work : Vector UInt8 32 := Vector.replicate 32 0
  have carries : ∀ trailing, RandomXAlgorithm.Carries
      ((PowSeal.mk nonce work).encode ++ trailing) nonce :=
    fun trailing => ⟨work, PowSeal.decode_encode _ trailing⟩
  have mined := RandomXAlgorithm.solved_resealed solves work []
  have resealed := RandomXAlgorithm.solved_resealed solves work [0]
  have same := (unique _ _ mined resealed (carries []) (carries [0])).1
  have lengths := congrArg List.length same
  simp at lengths

/-- Only where a nonce solves nothing is its seal unique, there being none. -/
theorem sealUnique_iff (algorithm : RandomXAlgorithm randomx) (preHash : Vector UInt8 32)
    (difficulty : Nat) (nonce : BitVec 64) :
    SealUnique algorithm preHash difficulty nonce ↔ ¬ algorithm.Solves preHash difficulty nonce := by
  constructor
  · intro unique solves
    exact solved_not_unique solves unique
  · intro unsolved first second accepted _ carries _
    rcases carries with ⟨work, decoded⟩
    exact absurd ((RandomXAlgorithm.accepts_decoded decoded).mp accepted) unsolved

/-- A library whose every hash is zero; at difficulty one no other hash does worse. -/
def zeroHash : RandomX Unit where
  newVm _ _ := .ok ()
  calculateHash _ _ := .ok (Vector.replicate 32 0)

theorem trailing_byte_reseals : ¬ ∀ (Vm : Type) (randomx : RandomX Vm)
    (algorithm : RandomXAlgorithm randomx) (preHash : Vector UInt8 32) (difficulty : Nat)
    (nonce : BitVec 64), SealUnique algorithm preHash difficulty nonce := by
  intro always
  let algorithm : RandomXAlgorithm zeroHash :=
    ⟨Vector.replicate 32 7, some ⟨List.replicate 32 0, false, (), rfl⟩⟩
  have unique := always Unit zeroHash algorithm (Vector.replicate 32 9) 1 12345
  have hashed : algorithm.workHash (Vector.replicate 32 9) 12345 =
    some (Vector.replicate 32 0) := rfl
  exact solved_not_unique (RandomXAlgorithm.solves_easiest hashed) unique

end Uniqueness

end Anarchy.RandomXSeals
