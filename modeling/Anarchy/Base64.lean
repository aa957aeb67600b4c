import Mathlib.Data.List.Basic

/-!
Base64 with the standard alphabet and padding: three bytes are four characters,
and a shorter end is filled with `=`. Bits that an end leaves over must be zero. The
reader of the browsers is below: it takes texts without the filling and with spaces.
-/

namespace Anarchy.Base64

def alphabet : List Char :=
  "ABCDEFGHIJKLMNOPQRSTUVWXYZabcdefghijklmnopqrstuvwxyz0123456789+/".toList

def symbol (sextet : Nat) : Char := alphabet.getD (sextet % 64) '='

def sextet (char : Char) : Option Nat := alphabet.findIdx? (· == char)

def encode : List UInt8 → List Char
  | [] => []
  | [a] =>
      let word := a.toNat * 16
      [symbol (word / 64), symbol word, '=', '=']
  | [a, b] =>
      let word := (a.toNat * 256 + b.toNat) * 4
      [symbol (word / 4096), symbol (word / 64), symbol word, '=']
  | a :: b :: c :: rest =>
      let word := (a.toNat * 256 + b.toNat) * 256 + c.toNat
      symbol (word / 262144) :: symbol (word / 4096) :: symbol (word / 64) :: symbol word ::
        encode rest

def decode : List Char → Option (List UInt8)
  | [] => some []
  | p :: q :: r :: s :: rest => do
      let first ← sextet p
      let second ← sextet q
      if r = '=' ∧ s = '=' ∧ rest = [] then
        let word := first * 64 + second
        if word % 16 = 0 then some [UInt8.ofNat (word / 16)] else none
      else
        let third ← sextet r
        if s = '=' ∧ rest = [] then
          let word := (first * 64 + second) * 64 + third
          if word % 4 = 0 then some [UInt8.ofNat (word / 1024), UInt8.ofNat (word / 4)] else none
        else
          let fourth ← sextet s
          let word := ((first * 64 + second) * 64 + third) * 64 + fourth
          let more ← decode rest
          return UInt8.ofNat (word / 65536) :: UInt8.ofNat (word / 256) :: UInt8.ofNat word :: more
  | _ => none

theorem sextet_symbol (number : Nat) : sextet (symbol number) = some (number % 64) := by
  have all : ∀ digit : Fin 64, sextet (symbol digit) = some digit.val := by decide +kernel
  have small := all ⟨number % 64, Nat.mod_lt _ (by decide)⟩
  rwa [symbol, Nat.mod_mod, ← symbol] at small

theorem symbol_ne_pad (number : Nat) : symbol number ≠ '=' := by
  have all : ∀ digit : Fin 64, symbol digit ≠ '=' := by decide +kernel
  have small := all ⟨number % 64, Nat.mod_lt _ (by decide)⟩
  rwa [symbol, Nat.mod_mod, ← symbol] at small

theorem byte_of_word {word : Nat} {byte : UInt8} (low : word % 256 = byte.toNat) :
    UInt8.ofNat word = byte := by
  apply UInt8.toNat_inj.mp
  rw [UInt8.toNat_ofNat', ← low]

theorem two_sextets (a : UInt8) :
    a.toNat * 16 / 64 % 64 * 64 + a.toNat * 16 % 64 = a.toNat * 16 := by
  have size := a.toNat_lt
  omega

theorem three_sextets (a b : UInt8) :
    let word := (a.toNat * 256 + b.toNat) * 4
    (word / 4096 % 64 * 64 + word / 64 % 64) * 64 + word % 64 = word := by
  have sizeA := a.toNat_lt
  have sizeB := b.toNat_lt
  omega

theorem four_sextets (a b c : UInt8) :
    let word := (a.toNat * 256 + b.toNat) * 256 + c.toNat
    ((word / 262144 % 64 * 64 + word / 4096 % 64) * 64 + word / 64 % 64) * 64 + word % 64 =
      word := by
  have sizeA := a.toNat_lt
  have sizeB := b.toNat_lt
  have sizeC := c.toNat_lt
  omega

theorem one_byte (a : UInt8) : UInt8.ofNat (a.toNat * 16 / 16) = a := by
  have size := a.toNat_lt
  exact byte_of_word (by omega)

theorem two_bytes (a b : UInt8) :
    UInt8.ofNat ((a.toNat * 256 + b.toNat) * 4 / 1024) = a ∧
      UInt8.ofNat ((a.toNat * 256 + b.toNat) * 4 / 4) = b := by
  have sizeA := a.toNat_lt
  have sizeB := b.toNat_lt
  exact ⟨byte_of_word (by omega), byte_of_word (by omega)⟩

theorem three_bytes (a b c : UInt8) :
    UInt8.ofNat (((a.toNat * 256 + b.toNat) * 256 + c.toNat) / 65536) = a ∧
      UInt8.ofNat (((a.toNat * 256 + b.toNat) * 256 + c.toNat) / 256) = b ∧
      UInt8.ofNat ((a.toNat * 256 + b.toNat) * 256 + c.toNat) = c := by
  have sizeA := a.toNat_lt
  have sizeB := b.toNat_lt
  have sizeC := c.toNat_lt
  exact ⟨byte_of_word (by omega), byte_of_word (by omega), byte_of_word (by omega)⟩

theorem decode_encode (bytes : List UInt8) : decode (encode bytes) = some bytes := by
  induction bytes using encode.induct with
  | case1 => rfl
  | case2 a =>
      have whole : a.toNat * 16 % 16 = 0 := by omega
      simp only [encode, decode, sextet_symbol, Option.bind_eq_bind, Option.bind_some, and_self,
        ↓reduceIte, two_sextets, whole, one_byte]
  | case3 a b =>
      have whole : (a.toNat * 256 + b.toNat) * 4 % 4 = 0 := by omega
      obtain ⟨high, low⟩ := two_bytes a b
      simp only [encode, decode, sextet_symbol, symbol_ne_pad, Option.bind_eq_bind,
        Option.bind_some, false_and, ↓reduceIte, and_self, three_sextets, whole, high, low]
  | case4 a b c rest ih =>
      obtain ⟨high, middle, low⟩ := three_bytes a b c
      simp only [encode, decode, sextet_symbol, symbol_ne_pad, Option.bind_eq_bind,
        Option.bind_some, false_and, ↓reduceIte, ih, four_sextets, high, middle, low,
        Option.pure_def]

section Forgiving

def isSpace (char : Char) : Bool := ['\t', '\n', '\x0c', '\r', ' '].contains char

/-- Up to two signs at the end are the filling. -/
def stripFilling (chars : List Char) : List Char :=
  match chars.reverse with
  | '=' :: '=' :: rest => rest.reverse
  | '=' :: rest => rest.reverse
  | _ => chars

/-- Bits that an end leaves over are dropped. -/
def decodeBare : List Char → Option (List UInt8)
  | [] => some []
  | [_] => none
  | [p, q] => do
      let word := (← sextet p) * 64 + (← sextet q)
      return [UInt8.ofNat (word / 16)]
  | [p, q, r] => do
      let word := ((← sextet p) * 64 + (← sextet q)) * 64 + (← sextet r)
      return [UInt8.ofNat (word / 1024), UInt8.ofNat (word / 4)]
  | p :: q :: r :: s :: rest => do
      let word := (((← sextet p) * 64 + (← sextet q)) * 64 + (← sextet r)) * 64 + (← sextet s)
      let more ← decodeBare rest
      return UInt8.ofNat (word / 65536) :: UInt8.ofNat (word / 256) :: UInt8.ofNat word :: more

def atob (text : List Char) : Option (List UInt8) :=
  let chars := text.filter fun char => !isSpace char
  decodeBare (if chars.length % 4 = 0 then stripFilling chars else chars)

/-- The characters that carry bits. -/
def encodeBare : List UInt8 → List Char
  | [] => []
  | [a] =>
      let word := a.toNat * 16
      [symbol (word / 64), symbol word]
  | [a, b] =>
      let word := (a.toNat * 256 + b.toNat) * 4
      [symbol (word / 4096), symbol (word / 64), symbol word]
  | a :: b :: c :: rest =>
      let word := (a.toNat * 256 + b.toNat) * 256 + c.toNat
      symbol (word / 262144) :: symbol (word / 4096) :: symbol (word / 64) :: symbol word ::
        encodeBare rest

theorem encode_filled (bytes : List UInt8) :
    ∃ filling, (filling = [] ∨ filling = ['='] ∨ filling = ['=', '=']) ∧
      encode bytes = encodeBare bytes ++ filling ∧ (encode bytes).length % 4 = 0 := by
  induction bytes using encode.induct with
  | case1 => exact ⟨[], .inl rfl, rfl, rfl⟩
  | case2 a => exact ⟨['=', '='], .inr (.inr rfl), rfl, by simp [encode]⟩
  | case3 a b => exact ⟨['='], .inr (.inl rfl), rfl, by simp [encode]⟩
  | case4 a b c rest ih =>
      obtain ⟨filling, short, split, whole⟩ := ih
      refine ⟨filling, short, by simp only [encode, encodeBare, split, List.cons_append], ?_⟩
      simp only [encode, List.length_cons]
      omega

theorem encodeBare_symbols (bytes : List UInt8) :
    ∀ char ∈ encodeBare bytes, ∃ number, char = symbol number := by
  induction bytes using encodeBare.induct with
  | case1 => exact fun char member => by cases member
  | case2 a =>
      intro char member
      simp only [encodeBare, List.mem_cons, List.not_mem_nil, or_false] at member
      rcases member with rfl | rfl <;> exact ⟨_, rfl⟩
  | case3 a b =>
      intro char member
      simp only [encodeBare, List.mem_cons, List.not_mem_nil, or_false] at member
      rcases member with rfl | rfl | rfl <;> exact ⟨_, rfl⟩
  | case4 a b c rest ih =>
      intro char member
      simp only [encodeBare, List.mem_cons] at member
      rcases member with rfl | rfl | rfl | rfl | later
      iterate 4 exact ⟨_, rfl⟩
      exact ih char later

theorem symbol_unspaced (number : Nat) : isSpace (symbol number) = false := by
  have all : ∀ digit : Fin 64, isSpace (symbol digit) = false := by decide +kernel
  have small := all ⟨number % 64, Nat.mod_lt _ (by decide)⟩
  rwa [symbol, Nat.mod_mod, ← symbol] at small

theorem encode_unspaced (bytes : List UInt8) :
    (encode bytes).filter (fun char => !isSpace char) = encode bytes := by
  obtain ⟨filling, short, split, _⟩ := encode_filled bytes
  rw [List.filter_eq_self]
  intro char member
  rw [split] at member
  rcases List.mem_append.mp member with carries | fills
  · obtain ⟨number, rfl⟩ := encodeBare_symbols bytes char carries
    rw [symbol_unspaced, Bool.not_false]
  · have sign : char = '=' := by
      rcases short with rfl | rfl | rfl
      · cases fills
      · simpa using fills
      · simpa using fills
    rw [sign]
    rfl

theorem stripFilling_encode (bytes : List UInt8) :
    stripFilling (encode bytes) = encodeBare bytes := by
  obtain ⟨filling, short, split, _⟩ := encode_filled bytes
  have last : ∀ rest, (encodeBare bytes).reverse ≠ '=' :: rest := by
    intro rest same
    have member : '=' ∈ encodeBare bytes := by
      rw [← List.mem_reverse, same]
      exact List.mem_cons_self
    obtain ⟨number, sign⟩ := encodeBare_symbols bytes _ member
    exact symbol_ne_pad number sign.symm
  rw [split, stripFilling]
  rcases short with rfl | rfl | rfl
  · rw [List.append_nil]
    split
    · rename_i same
      exact absurd same (last _)
    · rename_i same
      exact absurd same (last _)
    · rfl
  · rw [List.reverse_append]
    cases behind : (encodeBare bytes).reverse with
    | nil => simpa using behind.symm
    | cons first rest =>
        have other : first ≠ '=' := fun same => last rest (by rw [behind, same])
        have back : (first :: rest).reverse = encodeBare bytes := by
          rw [← behind, List.reverse_reverse]
        simp [other, back]
  · rw [List.reverse_append]
    simp

theorem decodeBare_encodeBare (bytes : List UInt8) :
    decodeBare (encodeBare bytes) = some bytes := by
  induction bytes using encodeBare.induct with
  | case1 => rfl
  | case2 a =>
      simp only [encodeBare, decodeBare, sextet_symbol, Option.bind_eq_bind, Option.bind_some,
        two_sextets, one_byte, Option.pure_def]
  | case3 a b =>
      obtain ⟨high, low⟩ := two_bytes a b
      simp only [encodeBare, decodeBare, sextet_symbol, Option.bind_eq_bind, Option.bind_some,
        three_sextets, high, low, Option.pure_def]
  | case4 a b c rest ih =>
      obtain ⟨high, middle, low⟩ := three_bytes a b c
      simp only [encodeBare, decodeBare, sextet_symbol, Option.bind_eq_bind, Option.bind_some, ih,
        four_sextets, high, middle, low, Option.pure_def]

/-- What was encoded reads back in a browser too. -/
theorem atob_encode (bytes : List UInt8) : atob (encode bytes) = some bytes := by
  obtain ⟨_, _, _, whole⟩ := encode_filled bytes
  rw [atob, encode_unspaced]
  simp only [whole, ↓reduceIte, stripFilling_encode, decodeBare_encodeBare]

end Forgiving

end Anarchy.Base64
