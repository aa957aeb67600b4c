import Anarchy.History
import Anarchy.StorageMap
import Mathlib.Data.String.Basic

/-!
The account of the page, its signers and the manager of the stealth keys. Loading the
engine, reading and writing the database and deriving the signers are asynchronous: what
waits is a part of the state, and the answers come in any order. Each key pair carries the
account that it was generated or restored for, which the code itself does not note.
-/

namespace Anarchy.AccountIsolation

abbrev Account := String

structure KeyMaterial where
  scanPriv : List UInt8
  spendPriv : List UInt8
  deriving DecidableEq

structure OwnedKeys where
  material : KeyMaterial
  madeFor : Option Account
  deriving DecidableEq

/-- Zeros belong to nobody. -/
def secureWipe (keys : OwnedKeys) : OwnedKeys :=
  ⟨⟨List.replicate keys.material.scanPriv.length 0,
    List.replicate keys.material.spendPriv.length 0⟩, none⟩

/-- The keys, and which arrays hold them. -/
structure StealthKeyPair where
  arrays : Nat
  keys : OwnedKeys
  deriving DecidableEq

/-- A call that waits for the engine: the account bound when it was made, and the keys it
restores, unless the engine makes or decrypts them. -/
structure WasmCall where
  boundTo : Option Account
  restores : Option OwnedKeys

structure SavedRead where
  account : Account
  cancelled : Bool

/-- A write on its way to the database; it copies the arrays when it gets there. -/
inductive Write
  | put (account : Account) (arrays : Nat) (keys : OwnedKeys) (wiped : Bool)
  | delete (account : Account)
  | clear

def Write.wipe (arrays : Nat) : Write → Write
  | .put account own keys wiped =>
      if own = arrays then .put account own (secureWipe keys) true
      else .put account own keys wiped
  | .delete account => .delete account
  | .clear => .clear

structure Session where
  account : Option Account
  previousAccount : Option Account
  signer : Option Account
  mainRawSigner : Option Account
  keyPair : Option StealthKeyPair
  boundAccount : Option Account
  nextArrays : Nat
  reads : List SavedRead
  calls : List WasmCall
  signing : List String
  writes : List Write
  saved : StorageMap Account OwnedKeys

/-- A page that was just loaded. -/
def Session.load (saved : StorageMap Account OwnedKeys) : Session :=
  ⟨none, none, none, none, none, none, 0, [], [], [], [], saved⟩

inductive Event
  | applyAccount (acct seed : Option String)
  | commit
  | keysRead (index : Nat)
  | generateKeys
  | restoreKeys
  | wasmReady (index : Nat) (material : KeyMaterial)
  | wasmFails (index : Nat)
  | signersReady (index : Nat) (created : Bool)
  | signersFail (index : Nat)
  | writeLands (index : Nat)
  | writeFails (index : Nat)
  | discard
  | beforeUnload
  | reload

/-- A name that the code takes for none. -/
def blank (name : Option String) : Bool := name.getD "" == ""

/-- The lengths that a saved record has to have. -/
def wellFormed (keys : OwnedKeys) : Bool :=
  keys.material.scanPriv.length == 32 && keys.material.spendPriv.length == 32

namespace Session

variable (session : Session)

def destroy : Session :=
  match session.keyPair with
  | none => session
  | some pair =>
      { session with keyPair := none, writes := session.writes.map (Write.wipe pair.arrays) }

def persist : Session :=
  match session.keyPair with
  | none => session
  | some pair =>
      if blank session.boundAccount then session
      else
        -- under the account that is bound now, whichever the keys were made for
        let write : Write :=
          .put (session.boundAccount.getD "") pair.arrays pair.keys false
        { session with writes := session.writes ++ [write] }

def applyAccount (acct seed : Option String) : Session :=
  if blank seed || blank acct then
    { session with
      account := acct
      signer := none
      mainRawSigner := none
      writes := session.writes ++ [.clear] }
  else { session with account := acct, signing := session.signing ++ [seed.getD ""] }

def cancelReads : Session :=
  { session with reads := session.reads.map fun read => { read with cancelled := true } }

/-- The effect of a changed account. -/
def commit : Session :=
  if session.previousAccount = session.account then session
  else
    -- the first account of a page finds the keys that were made before it
    let left := if session.previousAccount.isSome then session.destroy else session
    let bound : Session :=
      { left.cancelReads with previousAccount := session.account, boundAccount := session.account }
    if blank session.account then bound
    else { bound with reads := bound.reads ++ [⟨session.account.getD "", false⟩] }

/-- The call of `loadFromBackup` behind the answer of `loadStealthKeys`, if there is one. -/
def restoreCall (read : SavedRead) : Option WasmCall :=
  if read.cancelled || session.keyPair.isSome then none
  else ((session.saved.get read.account).filter wellFormed).map fun keys =>
    ⟨session.boundAccount, some keys⟩

def keysRead (index : Nat) : Session :=
  match session.reads[index]? with
  | none => session
  | some read =>
      { session with
        reads := session.reads.eraseIdx index
        calls := session.calls ++ (session.restoreCall read).toList }

def generateKeys : Session :=
  if session.keyPair.isSome then session
  else { session with calls := session.calls ++ [⟨session.boundAccount, none⟩] }

/-- `importFromBackup`, or `loadFromBackup` with the keys of a backup. -/
def restoreKeys : Session :=
  { session with calls := session.calls ++ [⟨session.boundAccount, none⟩] }

/-- The rest of a call, when the engine is there. -/
def wasmReady (index : Nat) (material : KeyMaterial) : Session :=
  match session.calls[index]? with
  | none => session
  | some call =>
      -- the account may have changed since the call was made
      let pair : StealthKeyPair :=
        ⟨session.nextArrays, call.restores.getD ⟨material, call.boundTo⟩⟩
      persist
        { session with
          calls := session.calls.eraseIdx index
          keyPair := some pair
          nextArrays := session.nextArrays + 1 }

def signersReady (address : String → Account) (index : Nat) (created : Bool) : Session :=
  match session.signing[index]? with
  | none => session
  | some seed =>
      { session with
        signing := session.signing.eraseIdx index
        signer := if created then some (address seed) else none
        mainRawSigner := some (address seed) }

def writeLands (index : Nat) : Session :=
  match session.writes[index]? with
  | none => session
  | some write =>
      let saved :=
        match write with
        | .put account _ keys _ => session.saved.insert account keys
        | .delete account => session.saved.remove account
        | .clear => .empty
      { session with writes := session.writes.eraseIdx index, saved := saved }

def discard : Session :=
  let wiped := session.destroy
  if blank session.boundAccount then wiped
  else { wiped with writes := wiped.writes ++ [.delete (session.boundAccount.getD "")] }

end Session

/-- `address` is the account of a seed. -/
def step (address : String → Account) (session : Session) : Event → Session × List Unit
  | .applyAccount acct seed => (session.applyAccount acct seed, [])
  | .commit => (session.commit, [])
  | .keysRead index => (session.keysRead index, [])
  | .generateKeys => (session.generateKeys, [])
  | .restoreKeys => (session.restoreKeys, [])
  | .wasmReady index material => (session.wasmReady index material, [])
  | .wasmFails index => ({ session with calls := session.calls.eraseIdx index }, [])
  | .signersReady index created => (session.signersReady address index created, [])
  | .signersFail index => ({ session with signing := session.signing.eraseIdx index }, [])
  | .writeLands index => (session.writeLands index, [])
  | .writeFails index => ({ session with writes := session.writes.eraseIdx index }, [])
  | .discard => (session.discard, [])
  | .beforeUnload => (session.destroy, [])
  | .reload => (.load session.saved, [])

/-- Keys and signers stay with the account they belong to. -/
structure Isolated (session : Session) : Prop where
  held : ∀ pair, session.keyPair = some pair → pair.keys.madeFor = session.boundAccount
  saved : ∀ account keys, session.saved.get account = some keys → keys.madeFor = some account
  signer : ∀ owner, session.signer = some owner → session.account = some owner
  mainRawSigner : ∀ owner, session.mainRawSigner = some owner → session.account = some owner

/-- No account changes while something that belongs to it waits. -/
def Timely (address : String → Account) (session : Session) : Event → Prop
  | .applyAccount acct seed => blank seed = true ∨ blank acct = true ∨
      ((∀ owner, session.signer = some owner → acct = some owner) ∧
        ∀ owner, session.mainRawSigner = some owner → acct = some owner)
  | .commit => session.previousAccount = session.account ∨
      session.previousAccount.isSome = true ∨ session.keyPair = none
  | .wasmReady index _ => ∀ call, session.calls[index]? = some call →
      call.boundTo = session.boundAccount
  | .signersReady index _ => ∀ seed, session.signing[index]? = some seed →
      session.account = some (address seed)
  | .writeLands index => ∀ account arrays keys wiped,
      session.writes[index]? = some (.put account arrays keys wiped) → wiped = false
  | _ => True

/-- What the waiting parts have to do with the bound account. -/
structure Consistent (session : Session) : Prop where
  bound : session.boundAccount = session.previousAccount
  reads : ∀ read ∈ session.reads, read.cancelled = false →
    session.boundAccount = some read.account
  calls : ∀ call ∈ session.calls, ∀ keys, call.restores = some keys →
    keys.madeFor = call.boundTo
  writes : ∀ account arrays keys wiped, Write.put account arrays keys wiped ∈ session.writes →
    keys.madeFor = if wiped then none else some account

section Parts

variable {session : Session}

theorem blank_false {name : Option String} (filled : blank name = false) :
    some (name.getD "") = name := by
  cases name with
  | none => cases filled
  | some value => rfl

theorem destroy_same (session : Session) : ∃ writes,
    session.destroy = { session with keyPair := none, writes := writes } := by
  rw [Session.destroy]
  split
  · rename_i none
    exact ⟨session.writes, by rw [← none]⟩
  · exact ⟨_, rfl⟩

theorem persist_same (session : Session) : ∃ writes,
    session.persist = { session with writes := writes } := by
  rw [Session.persist]
  split
  · exact ⟨session.writes, rfl⟩
  · split
    · exact ⟨session.writes, rfl⟩
    · exact ⟨_, rfl⟩

theorem commit_changed (changed : session.previousAccount ≠ session.account) :
    ∃ reads writes, session.commit =
      { session with
        previousAccount := session.account
        boundAccount := session.account
        keyPair := if session.previousAccount.isSome then none else session.keyPair
        reads := reads
        writes := writes } := by
  obtain ⟨writes, destroyed⟩ := destroy_same session
  rw [Session.commit, if_neg changed, destroyed]
  cases earlier : session.previousAccount.isSome with
  | true =>
      cases blank session.account with
      | true => exact ⟨_, _, rfl⟩
      | false => exact ⟨_, _, rfl⟩
  | false =>
      cases blank session.account with
      | true => exact ⟨_, _, rfl⟩
      | false => exact ⟨_, _, rfl⟩

theorem Isolated.destroy (isolated : Isolated session) : Isolated session.destroy := by
  obtain ⟨writes, same⟩ := destroy_same session
  rw [same]
  exact ⟨fun _ held => (by cases held), isolated.saved, isolated.signer, isolated.mainRawSigner⟩

theorem Consistent.destroy (consistent : Consistent session) : Consistent session.destroy := by
  rw [Session.destroy]
  cases held : session.keyPair with
  | none => exact consistent
  | some pair =>
      refine ⟨consistent.bound, consistent.reads, consistent.calls, ?_⟩
      intro account arrays keys wiped member
      obtain ⟨write, old, isWrite⟩ := List.mem_map.mp member
      cases write with
      | put own ownArrays ownKeys ownWiped =>
          rw [Write.wipe] at isWrite
          split at isWrite
          · cases isWrite
            rfl
          · cases isWrite
            exact consistent.writes _ _ _ _ old
      | delete own => cases isWrite
      | clear => cases isWrite

/-- A session with one more write that is not of keys. -/
theorem Consistent.write (consistent : Consistent session) {write : Write}
    (noKeys : ∀ account arrays keys wiped, write ≠ .put account arrays keys wiped) :
    Consistent { session with writes := session.writes ++ [write] } := by
  refine ⟨consistent.bound, consistent.reads, consistent.calls, ?_⟩
  intro account arrays keys wiped member
  rcases List.mem_append.mp member with old | new
  · exact consistent.writes account arrays keys wiped old
  · exact absurd (List.mem_singleton.mp new).symm (noKeys account arrays keys wiped)

theorem Consistent.persist (consistent : Consistent session)
    (own : ∀ pair, session.keyPair = some pair → pair.keys.madeFor = session.boundAccount) :
    Consistent session.persist := by
  rw [Session.persist]
  cases held : session.keyPair with
  | none => exact consistent
  | some pair =>
      cases unbound : blank session.boundAccount with
      | true => exact consistent
      | false =>
          refine ⟨consistent.bound, consistent.reads, consistent.calls, ?_⟩
          intro account arrays keys wiped member
          rcases List.mem_append.mp member with old | new
          · exact consistent.writes account arrays keys wiped old
          · cases List.mem_singleton.mp new
            exact (own pair held).trans (blank_false unbound).symm

end Parts

section Steps

variable {address : String → Account} {session : Session}

theorem applyAccount_isolated (isolated : Isolated session) (acct seed : Option String) :
    Isolated (session.applyAccount acct seed) ↔
      Timely address session (.applyAccount acct seed) := by
  rw [Session.applyAccount]
  split
  · rename_i leaves
    rw [Bool.or_eq_true] at leaves
    constructor
    · intro _
      exact leaves.imp_right .inl
    · intro _
      exact ⟨isolated.held, isolated.saved, fun _ none => (by cases none), fun _ none =>
        (by cases none)⟩
  · rename_i enters
    rw [Bool.or_eq_true, not_or] at enters
    constructor
    · intro after
      exact .inr (.inr ⟨after.signer, after.mainRawSigner⟩)
    · rintro (isBlank | isBlank | ⟨signer, mainRawSigner⟩)
      · exact absurd isBlank enters.1
      · exact absurd isBlank enters.2
      · exact ⟨isolated.held, isolated.saved, signer, mainRawSigner⟩

theorem commit_isolated (consistent : Consistent session) (isolated : Isolated session) :
    Isolated session.commit ↔ Timely address session .commit := by
  by_cases same : session.previousAccount = session.account
  · rw [Session.commit, if_pos same]
    exact ⟨fun _ => .inl same, fun _ => isolated⟩
  · obtain ⟨reads, writes, changed⟩ := commit_changed same
    rw [changed]
    constructor
    · intro after
      refine .inr ?_
      cases before : session.previousAccount with
      | some earlier => exact .inl rfl
      -- no account before: keys that are held were made for none
      | none =>
          right
          by_contra some
          obtain ⟨pair, held⟩ := Option.ne_none_iff_exists'.mp some
          have now := isolated.held pair held
          rw [consistent.bound] at now
          have later : pair.keys.madeFor = session.account :=
            after.held pair (by rw [before]; exact held)
          exact same (now.symm.trans later)
    · intro timely
      refine ⟨fun pair held => ?_, isolated.saved, isolated.signer, isolated.mainRawSigner⟩
      change (if session.previousAccount.isSome then none else session.keyPair) = some pair at held
      rcases timely with isSame | earlier | none
      · exact absurd isSame same
      · rw [if_pos earlier] at held
        cases held
      · rw [none, ite_self] at held
        cases held

theorem wasmReady_isolated (consistent : Consistent session) (isolated : Isolated session)
    (index : Nat) (material : KeyMaterial) :
    Isolated (session.wasmReady index material) ↔
      Timely address session (.wasmReady index material) := by
  rw [Session.wasmReady, Timely]
  cases waits : session.calls[index]? with
  | none =>
      constructor
      · intro _ call isCall
        cases isCall
      · intro _
        exact isolated
  | some call =>
      -- what the pair was made for is what was bound when it was asked for
      have owner : (call.restores.getD ⟨material, call.boundTo⟩).madeFor = call.boundTo := by
        cases restores : call.restores with
        | none => rfl
        | some keys =>
            exact consistent.calls call (List.mem_of_getElem? waits) keys restores
      simp only [Option.some.injEq, forall_eq']
      obtain ⟨writes, same⟩ := persist_same
        { session with
          calls := session.calls.eraseIdx index
          keyPair := some ⟨session.nextArrays, call.restores.getD ⟨material, call.boundTo⟩⟩
          nextArrays := session.nextArrays + 1 }
      rw [same]
      constructor
      · intro after
        exact owner.symm.trans (after.held _ rfl)
      · intro timely
        refine ⟨fun pair held => ?_, isolated.saved, isolated.signer, isolated.mainRawSigner⟩
        cases held
        exact owner.trans timely

theorem signersReady_isolated (isolated : Isolated session) (index : Nat) (created : Bool) :
    Isolated (session.signersReady address index created) ↔
      Timely address session (.signersReady index created) := by
  rw [Session.signersReady, Timely]
  cases waits : session.signing[index]? with
  | none =>
      constructor
      · intro _ seed isSeed
        cases isSeed
      · intro _
        exact isolated
  | some seed =>
      simp only [Option.some.injEq, forall_eq']
      constructor
      · intro after
        exact after.mainRawSigner _ rfl
      · intro timely
        refine ⟨isolated.held, isolated.saved, fun owner exposed => ?_, fun owner exposed => ?_⟩
        · change (if created then some (address seed) else none) = some owner at exposed
          split at exposed
          · cases exposed
            exact timely
          · cases exposed
        · cases exposed
          exact timely

theorem writeLands_isolated (consistent : Consistent session) (isolated : Isolated session)
    (index : Nat) :
    Isolated (session.writeLands index) ↔ Timely address session (.writeLands index) := by
  rw [Session.writeLands, Timely]
  cases waits : session.writes[index]? with
  | none =>
      constructor
      · intro _ account arrays keys wiped isWrite
        cases isWrite
      · intro _
        exact isolated
  | some write =>
      cases write with
      | put account arrays keys wiped =>
          -- arrays that are wiped on the way land as nobody's keys
          have owner := consistent.writes _ _ _ _ (List.mem_of_getElem? waits)
          constructor
          · intro after own ownArrays ownKeys ownWiped isWrite
            cases isWrite
            have kept := after.saved account keys (by simp)
            rw [owner] at kept
            cases wiped with
            | false => rfl
            | true => cases kept
          · intro timely
            have intact := timely account arrays keys wiped rfl
            rw [intact] at owner
            refine ⟨isolated.held, fun name record found => ?_, isolated.signer,
              isolated.mainRawSigner⟩
            change (session.saved.insert account keys).get name = some record at found
            rw [StorageMap.get_insert] at found
            split at found
            · rename_i isName
              cases found
              rw [isName]
              exact owner
            · exact isolated.saved name record found
      | delete account =>
          constructor
          · intro _ own arrays keys wiped isWrite
            cases isWrite
          · intro _
            refine ⟨isolated.held, fun name record found => ?_, isolated.signer,
              isolated.mainRawSigner⟩
            change (session.saved.remove account).get name = some record at found
            rw [StorageMap.get_remove] at found
            split at found
            · cases found
            · exact isolated.saved name record found
      | clear =>
          constructor
          · intro _ own arrays keys wiped isWrite
            cases isWrite
          · intro _
            exact ⟨isolated.held, fun name record found => (by cases found), isolated.signer,
              isolated.mainRawSigner⟩

theorem keysRead_same (session : Session) (index : Nat) :
    ∃ reads calls, session.keysRead index = { session with reads := reads, calls := calls } := by
  rw [Session.keysRead]
  split
  · exact ⟨session.reads, session.calls, rfl⟩
  · exact ⟨_, _, rfl⟩

/-- A step keeps keys and signers with their account exactly when it is timely. -/
theorem step_isolated {event : Event} (consistent : Consistent session)
    (isolated : Isolated session) :
    Isolated (step address session event).1 ↔ Timely address session event := by
  have kept : ∀ {after : Session}, Isolated after → (Isolated after ↔ True) :=
    fun after => ⟨fun _ => trivial, fun _ => after⟩
  have same : ∀ calls reads signing writes, Isolated
      { session with calls := calls, reads := reads, signing := signing, writes := writes } :=
    fun _ _ _ _ => ⟨isolated.held, isolated.saved, isolated.signer, isolated.mainRawSigner⟩
  cases event with
  | applyAccount acct seed => exact applyAccount_isolated isolated acct seed
  | commit => exact commit_isolated consistent isolated
  | keysRead index =>
      obtain ⟨reads, calls, read⟩ := keysRead_same session index
      change Isolated (session.keysRead index) ↔ True
      rw [read]
      exact kept (same calls reads _ _)
  | generateKeys =>
      change Isolated session.generateKeys ↔ True
      rw [Session.generateKeys]
      split
      · exact kept isolated
      · exact kept (same _ _ _ _)
  | restoreKeys => exact kept (same _ _ _ _)
  | wasmReady index material => exact wasmReady_isolated consistent isolated index material
  | wasmFails index => exact kept (same _ _ _ _)
  | signersReady index created => exact signersReady_isolated isolated index created
  | signersFail index => exact kept (same _ _ _ _)
  | writeLands index => exact writeLands_isolated consistent isolated index
  | writeFails index => exact kept (same _ _ _ _)
  | discard =>
      have destroyed := isolated.destroy
      change Isolated session.discard ↔ True
      rw [Session.discard]
      split
      · exact kept destroyed
      · exact kept
          ⟨destroyed.held, destroyed.saved, destroyed.signer, destroyed.mainRawSigner⟩
  | beforeUnload => exact kept isolated.destroy
  | reload =>
      exact kept ⟨fun _ held => (by cases held), isolated.saved, fun _ none => (by cases none),
        fun _ none => (by cases none)⟩

theorem commit_consistent (consistent : Consistent session) : Consistent session.commit := by
  by_cases same : session.previousAccount = session.account
  · rw [Session.commit, if_pos same]
    exact consistent
  · let left := if session.previousAccount.isSome then session.destroy else session
    have isLeft : Consistent left := by
      change Consistent (if _ then _ else _)
      split
      · exact consistent.destroy
      · exact consistent
    -- of all reads, only the one for the new account is answered
    have cancelled : ∀ read ∈ left.cancelReads.reads, read.cancelled = true := by
      intro read member
      obtain ⟨earlier, _, rfl⟩ := List.mem_map.mp member
      rfl
    rw [Session.commit, if_neg same]
    cases filled : blank session.account with
    | true =>
        refine ⟨rfl, fun read member active => ?_, isLeft.calls, isLeft.writes⟩
        rw [cancelled read member] at active
        cases active
    | false =>
        refine ⟨rfl, fun read member active => ?_, isLeft.calls, isLeft.writes⟩
        rcases List.mem_append.mp member with old | new
        · rw [cancelled read old] at active
          cases active
        · cases List.mem_singleton.mp new
          exact (blank_false filled).symm

theorem restoreCall_owner (consistent : Consistent session) (isolated : Isolated session)
    {read : SavedRead} (member : read ∈ session.reads) {call : WasmCall}
    (restored : session.restoreCall read = some call) {keys : OwnedKeys}
    (restores : call.restores = some keys) : keys.madeFor = call.boundTo := by
  rw [Session.restoreCall] at restored
  split at restored
  · cases restored
  · rename_i goes
    rw [Bool.or_eq_true, not_or, Bool.not_eq_true] at goes
    obtain ⟨record, found, rfl⟩ := Option.map_eq_some_iff.mp restored
    cases restores
    -- what is saved is of its account, and the read is for the one that is bound
    rw [isolated.saved read.account keys (Option.filter_eq_some_iff.mp found).1]
    exact (consistent.reads read member goes.1).symm

theorem keysRead_consistent (consistent : Consistent session) (isolated : Isolated session)
    (index : Nat) : Consistent (session.keysRead index) := by
  rw [Session.keysRead]
  split
  · exact consistent
  · rename_i read waits
    refine ⟨consistent.bound, fun other member =>
      consistent.reads other (List.mem_of_mem_eraseIdx member), fun call member keys restores => ?_,
      consistent.writes⟩
    rcases List.mem_append.mp member with old | new
    · exact consistent.calls call old keys restores
    · exact restoreCall_owner consistent isolated (List.mem_of_getElem? waits)
        (Option.mem_toList.mp new) restores

theorem wasmReady_consistent (consistent : Consistent session)
    (index : Nat) (material : KeyMaterial)
    (timely : Timely address session (.wasmReady index material)) :
    Consistent (session.wasmReady index material) := by
  rw [Session.wasmReady]
  cases waits : session.calls[index]? with
  | none => exact consistent
  | some call =>
      refine Consistent.persist ⟨consistent.bound, consistent.reads, fun other member =>
        consistent.calls other (List.mem_of_mem_eraseIdx member), consistent.writes⟩ ?_
      intro pair held
      cases held
      have bound := timely call waits
      cases restores : call.restores with
      | none => exact bound
      | some keys =>
          exact (consistent.calls call (List.mem_of_getElem? waits) keys restores).trans bound

theorem writeLands_consistent (consistent : Consistent session) (index : Nat) :
    Consistent (session.writeLands index) := by
  rw [Session.writeLands]
  split
  · exact consistent
  · exact ⟨consistent.bound, consistent.reads, consistent.calls,
      fun account arrays keys wiped member =>
        consistent.writes account arrays keys wiped (List.mem_of_mem_eraseIdx member)⟩

/-- A call without saved keys may always be added. -/
theorem Consistent.call (consistent : Consistent session) (boundTo : Option Account) :
    Consistent { session with calls := session.calls ++ [⟨boundTo, none⟩] } := by
  refine ⟨consistent.bound, consistent.reads, fun call member keys restores => ?_,
    consistent.writes⟩
  rcases List.mem_append.mp member with old | new
  · exact consistent.calls call old keys restores
  · cases List.mem_singleton.mp new
    cases restores

theorem step_consistent {event : Event} (consistent : Consistent session)
    (isolated : Isolated session) (timely : Timely address session event) :
    Consistent (step address session event).1 := by
  cases event with
  | applyAccount acct seed =>
      change Consistent (session.applyAccount acct seed)
      rw [Session.applyAccount]
      split
      · have cleared : Consistent { session with writes := session.writes ++ [Write.clear] } :=
          consistent.write fun _ _ _ _ same => by cases same
        exact ⟨cleared.bound, cleared.reads, cleared.calls, cleared.writes⟩
      · exact ⟨consistent.bound, consistent.reads, consistent.calls, consistent.writes⟩
  | commit => exact commit_consistent consistent
  | keysRead index => exact keysRead_consistent consistent isolated index
  | generateKeys =>
      change Consistent session.generateKeys
      rw [Session.generateKeys]
      split
      · exact consistent
      · exact consistent.call session.boundAccount
  | restoreKeys => exact consistent.call session.boundAccount
  | wasmReady index material => exact wasmReady_consistent consistent index material timely
  | wasmFails index =>
      exact ⟨consistent.bound, consistent.reads, fun call member =>
        consistent.calls call (List.mem_of_mem_eraseIdx member), consistent.writes⟩
  | signersReady index created =>
      change Consistent (session.signersReady address index created)
      rw [Session.signersReady]
      split
      · exact consistent
      · exact ⟨consistent.bound, consistent.reads, consistent.calls, consistent.writes⟩
  | signersFail index =>
      exact ⟨consistent.bound, consistent.reads, consistent.calls, consistent.writes⟩
  | writeLands index => exact writeLands_consistent consistent index
  | writeFails index =>
      exact ⟨consistent.bound, consistent.reads, consistent.calls,
        fun account arrays keys wiped member =>
          consistent.writes account arrays keys wiped (List.mem_of_mem_eraseIdx member)⟩
  | discard =>
      change Consistent session.discard
      rw [Session.discard]
      split
      · exact consistent.destroy
      · exact consistent.destroy.write fun _ _ _ _ same => by cases same
  | beforeUnload => exact consistent.destroy
  | reload =>
      exact ⟨rfl, fun _ member => (by cases member), fun _ member => (by cases member),
        fun _ _ _ _ member => (by cases member)⟩

end Steps

/-- In a run from an empty database, keys and signers stay with their account in every state
exactly when every step is timely. -/
theorem account_isolation_exact (address : String → Account) (events : List Event) :
    History.Along (step address) (fun before event => Isolated (step address before event).1)
        (.load .empty) events ↔
      History.Along (step address) (Timely address) (.load .empty) events := by
  have consistent : Consistent (.load .empty) :=
    ⟨rfl, fun _ member => (by cases member), fun _ member => (by cases member),
      fun _ _ _ _ member => (by cases member)⟩
  have isolated : Isolated (.load .empty) :=
    ⟨fun _ held => (by cases held), fun _ _ found => (by cases found), fun _ none =>
      (by cases none), fun _ none => (by cases none)⟩
  exact History.along_precise (fun _ _ => step_isolated) (fun _ _ => step_consistent) _ events
    consistent isolated

def alice : Account := "5GrwvaEF5zXb26Fz9rcQpDWS57CtERHpNehXCPcNoHGKutQY"

def bob : Account := "5FHneW46xGXgs5mUiveU4sbTyGBzmstUspZC92UhjJM694ty"

/-- The account changes between the two awaits of a key generation. -/
def switchDuringGeneration : List Event :=
  [.applyAccount alice "//Alice", .commit, .generateKeys, .applyAccount bob "//Bob", .commit,
    .wasmReady 0 ⟨List.replicate 32 1, List.replicate 32 2⟩, .writeLands 0]

def devAddress (seed : String) : Account := if seed = "//Alice" then alice else bob

/-- The keys of the first account are held and saved under the second one. -/
theorem keys_cross_accounts :
    let session := History.final (step devAddress) (.load .empty) switchDuringGeneration
    session.boundAccount = some bob ∧
      session.keyPair.map (fun pair => pair.keys.madeFor) = some (some alice) ∧
      (session.saved.get bob).map OwnedKeys.madeFor = some (some alice) ∧
      ¬ Isolated session := by
  intro session
  have bound : session.boundAccount = some bob := by decide +kernel
  have owner : session.keyPair.map (fun pair => pair.keys.madeFor) = some (some alice) := by
    decide +kernel
  refine ⟨bound, owner, by decide +kernel, fun isolated => ?_⟩
  obtain ⟨pair, held, own⟩ := Option.map_eq_some_iff.mp owner
  have same := isolated.held pair held
  rw [own, bound] at same
  exact absurd same (by decide)

end Anarchy.AccountIsolation
