import Anarchy.NodeLiveness
import Mathlib.Data.Nat.ModEq

/-!
Which storage node a chain node sends a fragment to. The place of a fragment in
the list of nodes is a number from the Merkle root plus its index, added as machine
words and then reduced by the length of the list, so the places of one upload follow
each other as long as the addition does not wrap around.
-/

namespace Anarchy.NodeRegistry

open Endpoints LittleEndian StorageNodeRegistry

section Wrapping

/-- A sum of machine words, reduced to a place in a list. -/
def placeOf (word count seed index : Nat) : Nat := (seed + index) % word % count

/-- The first choices are pairwise different. -/
def Apart {α : Type} (choose : Nat → α) (number : Nat) : Prop :=
  ∀ first second, first < second → second < number → choose first ≠ choose second

/-- Either no index below `number` wraps around, or wrapping around keeps the places apart. -/
def KeptApart (word count seed number : Nat) : Prop :=
  seed + number ≤ word ∨ word % count = 0 ∨ number ≤ word % count

variable {word count seed number : Nat}

theorem residues_differ {first second modulus : Nat} (less : first < second)
    (near : second - first < modulus) : first % modulus ≠ second % modulus := by
  intro same
  have divides := (Nat.modEq_iff_dvd' less.le).mp same
  have large := Nat.le_of_dvd (by omega) divides
  omega

theorem apart_of_kept (small : seed < word) (enough : number ≤ count)
    (kept : KeptApart word count seed number) : Apart (placeOf word count seed) number := by
  intro first second less within
  unfold placeOf
  by_cases long : word < number
  · -- More indices than words: the list is longer than the word and nothing keeps them apart.
    rcases kept with fits | divides | short
    · omega
    · rw [Nat.mod_eq_of_lt (by omega)] at divides
      omega
    · rw [Nat.mod_eq_of_lt (by omega)] at short
      omega
  · by_cases before : seed + second < word
    · have firstBefore : seed + first < word := by omega
      rw [Nat.mod_eq_of_lt before, Nat.mod_eq_of_lt firstBefore]
      exact residues_differ (by omega) (by omega)
    · have wrapped : (seed + second) % word = seed + second - word := by
        rw [Nat.mod_eq_sub_mod (by omega), Nat.mod_eq_of_lt (by omega)]
      by_cases firstBefore : seed + first < word
      · rw [wrapped, Nat.mod_eq_of_lt firstBefore]
        intro same
        -- The two sums lie one word apart, less the difference of the indices.
        have divides : count ∣ word - (second - first) := by
          have gap : seed + first - (seed + second - word) = word - (second - first) := by omega
          rw [← gap]
          exact (Nat.modEq_iff_dvd' (by omega)).mp same.symm
        have whole := Nat.div_add_mod word count
        obtain ⟨times, split⟩ := divides
        rcases kept with fits | even | short
        · omega
        · have both : count ∣ second - first := by
            have parts : second - first = count * (word / count) - count * times := by omega
            rw [parts]
            exact Nat.dvd_sub (Nat.dvd_mul_right _ _) (Nat.dvd_mul_right _ _)
          have large := Nat.le_of_dvd (by omega) both
          omega
        · have rest : count ∣ word % count - (second - first) := by
            have parts : word % count - (second - first) =
                count * times - count * (word / count) := by omega
            rw [parts]
            exact Nat.dvd_sub (Nat.dvd_mul_right _ _) (Nat.dvd_mul_right _ _)
          have large := Nat.le_of_dvd (by omega) rest
          have less := Nat.mod_lt word (show 0 < count by omega)
          omega
      · have firstWrapped : (seed + first) % word = seed + first - word := by
          rw [Nat.mod_eq_sub_mod (by omega), Nat.mod_eq_of_lt (by omega)]
        rw [wrapped, firstWrapped]
        exact residues_differ (by omega) (by omega)

/-- Two indices that differ by the rest of the word and between which the sum wraps around have
one place. -/
theorem kept_of_apart (small : seed < word)
    (apart : Apart (placeOf word count seed) number) : KeptApart word count seed number := by
  by_contra lost
  unfold KeptApart at lost
  rw [not_or, not_or] at lost
  obtain ⟨wraps, rest, fits⟩ := lost
  have whole := Nat.div_add_mod word count
  let first := word - seed - word % count
  have before : seed + first < word := by omega
  have behind : word ≤ seed + (first + word % count) := by omega
  have within : first + word % count < number := by omega
  by_cases long : word < number
  · -- The index of a whole word comes back to the place of index zero.
    apply apart 0 word (by omega) long
    rw [placeOf, placeOf, Nat.add_mod_right, Nat.add_zero]
  · apply apart first (first + word % count) (by omega) within
    have wrapped : (seed + (first + word % count)) % word =
        seed + first - count * (word / count) := by
      rw [Nat.mod_eq_sub_mod behind]
      have shifted : seed + (first + word % count) - word =
          seed + first - count * (word / count) := by omega
      rw [shifted]
      exact Nat.mod_eq_of_lt (by omega)
    rw [placeOf, placeOf, Nat.mod_eq_of_lt before, wrapped, Nat.sub_mul_mod (by omega)]

theorem apart_iff (small : seed < word) (enough : number ≤ count) :
    Apart (placeOf word count seed) number ↔ KeptApart word count seed number :=
  ⟨kept_of_apart small, apart_of_kept small enough⟩

/-- Places of a list without repetitions are apart as its entries are. -/
theorem apart_entries {α : Type} {list : List α} (distinct : list.Nodup) {place : Nat → Nat}
    (inside : 0 < list.length → ∀ index, place index < list.length) (number : Nat)
    (enough : number ≤ list.length) :
    Apart (fun index => list[place index]?) number ↔ Apart place number := by
  constructor
  · intro apart first second less within same
    exact apart first second less within (congrArg (list[·]?) same)
  · intro apart first second less within same
    have bound := inside (by omega) first
    have places := (List.getElem?_inj bound distinct).mp same
    exact apart first second less within places

end Wrapping

section Placement

abbrev MerkleRoot := Vector UInt8 32

/-- The first eight bytes as a number, lowest first. -/
def rootSeed (merkleRoot : MerkleRoot) : Nat := value (merkleRoot.toList.take 8)

/-- `usize` has 64 bits. -/
def nodeIndex (merkleRoot : MerkleRoot) (fragmentIndex count : Nat) : Nat :=
  placeOf (2 ^ 64) count (rootSeed merkleRoot) fragmentIndex

namespace StorageNodeRegistry

variable (registry : StorageNodeRegistry) (now : Nat)

def onlineNodes : List RegisteredStorageNode := registry.nodes.filter fun node => isLive node now

def onlineNodeCount : Nat := (registry.onlineNodes now).length

def selectNodeForFragment (merkleRoot : MerkleRoot) (fragmentIndex : Nat) :
    Option RegisteredStorageNode :=
  let online := registry.onlineNodes now
  if online.isEmpty then none
  else online[nodeIndex merkleRoot fragmentIndex online.length]?

/-- The endpoint of the client; the URLs on the chain count where no node is online. -/
def getStorageClientForFragment (onChainUrls : List String) (merkleRoot : MerkleRoot)
    (fragmentIndex : Nat) : Option String :=
  match registry.selectNodeForFragment now merkleRoot fragmentIndex with
  | some node => some node.endpoint
  | none =>
      if onChainUrls.isEmpty then none
      else onChainUrls[nodeIndex merkleRoot fragmentIndex onChainUrls.length]?

end StorageNodeRegistry

theorem rootSeed_lt (merkleRoot : MerkleRoot) : rootSeed merkleRoot < 2 ^ 64 := by
  have bound := value_lt (merkleRoot.toList.take 8)
  have length : (merkleRoot.toList.take 8).length = 8 := by simp
  rw [length] at bound
  exact bound

theorem nodeIndex_lt (merkleRoot : MerkleRoot) {count : Nat} (some : 0 < count)
    (fragmentIndex : Nat) : nodeIndex merkleRoot fragmentIndex count < count :=
  Nat.mod_lt _ some

variable {registry : StorageNodeRegistry} {now : Nat}

/-- With a node online the client is that of the chosen one. -/
theorem client_online (online : 0 < registry.onlineNodeCount now) (onChainUrls : List String)
    (merkleRoot : MerkleRoot) (fragmentIndex : Nat) :
    registry.getStorageClientForFragment now onChainUrls merkleRoot fragmentIndex =
      ((registry.onlineNodes now).map (·.endpoint))[nodeIndex merkleRoot fragmentIndex
        (registry.onlineNodeCount now)]? := by
  have someNode : ¬ (registry.onlineNodes now).isEmpty := by
    rw [List.isEmpty_iff_length_eq_zero]
    exact online.ne'
  have bound := nodeIndex_lt merkleRoot online fragmentIndex
  rw [getStorageClientForFragment, selectNodeForFragment]
  simp only [if_neg someNode]
  rw [List.getElem?_map]
  unfold onlineNodeCount at bound ⊢
  rw [List.getElem?_eq_getElem bound]
  rfl

theorem client_fallback (offline : registry.onlineNodes now = []) {onChainUrls : List String}
    (some : 0 < onChainUrls.length) (merkleRoot : MerkleRoot) (fragmentIndex : Nat) :
    registry.getStorageClientForFragment now onChainUrls merkleRoot fragmentIndex =
      onChainUrls[nodeIndex merkleRoot fragmentIndex onChainUrls.length]? := by
  have someUrl : ¬ onChainUrls.isEmpty := by
    rw [List.isEmpty_iff_length_eq_zero]
    exact some.ne'
  rw [getStorageClientForFragment, selectNodeForFragment, offline]
  exact if_neg someUrl

/-- Clients out of one list of different endpoints go to different nodes exactly where the sums
are kept apart. -/
theorem clients_apart_iff {endpoints : List String} (distinct : endpoints.Nodup)
    (merkleRoot : MerkleRoot) {number : Nat} (enough : number ≤ endpoints.length)
    (client : Nat → Option String) (chosen : 0 < endpoints.length → ∀ index,
      client index = endpoints[nodeIndex merkleRoot index endpoints.length]?) :
    Apart client number ↔
      KeptApart (2 ^ 64) endpoints.length (rootSeed merkleRoot) number := by
  rcases Nat.eq_zero_or_pos endpoints.length with none | some
  · have nothing : number = 0 := by omega
    have seed := rootSeed_lt merkleRoot
    rw [nothing]
    constructor
    · intro _
      exact .inl (by omega)
    · intro _ first second _ within
      omega
  · have same : client = fun index =>
        endpoints[nodeIndex merkleRoot index endpoints.length]? := funext (chosen some)
    rw [same, apart_entries distinct (fun some => nodeIndex_lt merkleRoot some) number enough]
    exact apart_iff (rootSeed_lt merkleRoot) enough

/-- As many fragments as there are nodes go to different nodes exactly where the sums of the seed
and the indices do not wrap around, or wrap around without meeting an earlier place; so it is for
the nodes of a registry and for the entries and the URLs of the chain that stand in for them. -/
theorem fragments_apart_iff {PeerId : Type} [DecidableEq PeerId] (verify : Verifier)
    (parse : String → Except String Url) (policy : EndpointPolicy)
    (events : List (Event PeerId)) (now : Nat) (onChainUrls : List String)
    (merkleRoot : MerkleRoot) (number : Nat) :
    let registry :=
      (History.final (ChainNode.step verify parse policy) ChainNode.start events).registry
    let client := registry.getStorageClientForFragment now onChainUrls merkleRoot
    (0 < registry.onlineNodeCount now → number ≤ registry.onlineNodeCount now →
      (Apart client number ↔
        KeptApart (2 ^ 64) (registry.onlineNodeCount now) (rootSeed merkleRoot) number)) ∧
    (registry.onlineNodeCount now = 0 → number ≤ onChainUrls.length →
      (Apart (fun index => nodeIndex merkleRoot index onChainUrls.length) number ↔
        KeptApart (2 ^ 64) onChainUrls.length (rootSeed merkleRoot) number) ∧
      (onChainUrls.Nodup → (Apart client number ↔
        KeptApart (2 ^ 64) onChainUrls.length (rootSeed merkleRoot) number))) := by
  intro registry client
  have sound : Sound registry := registry_sound verify parse policy events
  constructor
  · intro online enough
    have distinct : ((registry.onlineNodes now).map (·.endpoint)).Nodup :=
      sound.distinct.sublist (List.filter_sublist.map _)
    have length : ((registry.onlineNodes now).map (·.endpoint)).length =
        registry.onlineNodeCount now := List.length_map _
    have judged := clients_apart_iff distinct merkleRoot (length ▸ enough) client fun _ index => by
        rw [length]
        exact client_online online onChainUrls merkleRoot index
    rw [length] at judged
    exact judged
  · intro offline enough
    refine ⟨apart_iff (rootSeed_lt merkleRoot) enough, fun distinct => ?_⟩
    apply clients_apart_iff distinct merkleRoot enough client
    intro some index
    exact client_fallback (List.length_eq_zero_iff.mp offline) some merkleRoot index

def highestRoot : MerkleRoot := Vector.replicate 32 255

def spareUrls : List String := ["http://203.0.113.6:3030", "http://203.0.113.7:3030"]

/-- A fragment for the one announced node, and one for each URL of the chain where no node has
been announced. -/
theorem few_fragments_apart :
    Apart ((History.final (ChainNode.step knownVerify knownParse livePolicy) ChainNode.start
        [announcement]).registry.getStorageClientForFragment (knownTime + 100) [] highestRoot) 1 ∧
      Apart ((History.final (ChainNode.step knownVerify knownParse livePolicy)
        (ChainNode.start : ChainNode Nat) []).registry.getStorageClientForFragment knownTime
          spareUrls highestRoot) 2 := by
  constructor
  · have nodes : (History.final (ChainNode.step knownVerify knownParse livePolicy)
        ChainNode.start [announcement]).registry.nodes = [(knownInfo knownTime).toNode] := by
      simp only [History.final, step_nodes, announcement_handed]
      rfl
    have online : (History.final (ChainNode.step knownVerify knownParse livePolicy)
        ChainNode.start [announcement]).registry.onlineNodeCount (knownTime + 100) = 1 := by
      rw [onlineNodeCount, onlineNodes, nodes]
      rfl
    have judged := (fragments_apart_iff knownVerify knownParse livePolicy [announcement]
      (knownTime + 100) [] highestRoot 1).1 (by rw [online]; decide) (by rw [online])
    have seed := rootSeed_lt highestRoot
    exact judged.mpr (.inl seed)
  · have judged := ((fragments_apart_iff knownVerify knownParse livePolicy
      ([] : List (Event Nat)) knownTime spareUrls highestRoot 2).2 rfl (by decide)).2 (by decide)
    exact judged.mpr (.inr (.inl (by decide)))

def threeNodes : StorageNodeRegistry :=
  ["http://203.0.113.5:3030", "http://203.0.113.6:3030", "http://203.0.113.7:3030"].foldl
    (fun registry url => (registry.registerOutcome (RegisteredStorageNode.new url knownTime)).1)
    .new

/-- The first sum is the highest word, a multiple of three, and the second wraps around to
zero. -/
theorem wrapped_fragments_meet :
    threeNodes.onlineNodeCount knownTime = 3 ∧
      threeNodes.getStorageClientForFragment knownTime [] highestRoot 0 =
        some "http://203.0.113.5:3030" ∧
      ¬ Apart (threeNodes.getStorageClientForFragment knownTime [] highestRoot) 3 := by
  have first : threeNodes.getStorageClientForFragment knownTime [] highestRoot 0 =
      some "http://203.0.113.5:3030" := by decide +kernel
  have second : threeNodes.getStorageClientForFragment knownTime [] highestRoot 1 =
      some "http://203.0.113.5:3030" := by decide +kernel
  refine ⟨by decide +kernel, first, ?_⟩
  intro apart
  exact apart 0 1 (by decide) (by decide) (first.trans second.symm)

end Placement
end Anarchy.NodeRegistry
