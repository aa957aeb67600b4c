import Anarchy.KzgCompleteness
import Anarchy.TextLines

/-!
The trusted setup that a storage node reads from a file, which is either binary,
with the number of points in its first four bytes, or the text of the ceremony, with
the number in its first line. The two are told apart by the first byte alone. The
curve library, with the encodings of its points, is a parameter.
-/

namespace Anarchy.ProverSetup

open ByteReader KzgCompleteness LittleEndian NodeRegistry ScalarField SignedUploads TextLines
open VssEncoding VssShares

section Loading

inductive SrsError
  | unreadable
  | notUtf8
  | textTooShort
  | g1Count
  | g2Count
  | noG1Points
  | fewG2Points
  | missingLines (expected found : Nat)
  | g1Hex (index : Nat)
  | g1Size (index size : Nat)
  | g1Deserialize (index : Nat)
  | tauHex
  | tauSize (size : Nat)
  | tauDeserialize
  | fileTooSmall (size : Nat)
  | missingBytes (expected points size : Nat)
  | g1Point (index : Nat)
  | g2Point
  deriving DecidableEq

/-- The text of an error, over the path of the file and what the curve library says. -/
def SrsError.message (path cause : String) : SrsError → String
  | .unreadable => "Failed to read SRS file: " ++ path
  | .notUtf8 => "SRS file appears to be text but is not valid UTF-8"
  | .textTooShort => "SRS text too short"
  | .g1Count => "Invalid G1 count"
  | .g2Count => "Invalid G2 count"
  | .noG1Points => "SRS must have at least 1 G1 point"
  | .fewG2Points => "SRS must have at least 2 G2 points (need G2[1])"
  | .missingLines expected found => "Expected " ++ toString expected ++ " lines, got " ++
      toString found
  | .g1Hex index => "G1[" ++ toString index ++ "] hex error"
  | .g1Size index size => "G1[" ++ toString index ++ "] wrong size: expected 48 bytes, got " ++
      toString size
  | .g1Deserialize index => "G1[" ++ toString index ++ "] deserialize error: " ++ cause
  | .tauHex => "tau_g2 hex error"
  | .tauSize size => "tau_g2 wrong size: expected 96 bytes, got " ++ toString size
  | .tauDeserialize => "tau_g2 deserialize error: " ++ cause
  | .fileTooSmall size => "SRS file too small: expected at least 148 bytes, got " ++ toString size
  | .missingBytes expected points size => "SRS file too small: expected " ++ toString expected ++
      " bytes for " ++ toString points ++ " G1 points, got " ++ toString size
  | .g1Point index => "Failed to deserialize G1 point " ++ toString index ++ ": " ++ cause
  | .g2Point => "Failed to deserialize G2 point: " ++ cause

/-- A place outside of a list or a slice outside of the bytes ends the program. -/
inductive Stop (Error : Type)
  | refused (error : Error)
  | panicked
  deriving DecidableEq

abbrev LoadStop := Stop SrsError

variable (curve : Curve)

structure KzgProver where
  srsG1 : List curve.G1
  tauG2 : Option curve.G2

def readHexLine (lines : List (List Char)) (place size : Nat) (hex : SrsError)
    (wrong : Nat → SrsError) : Except LoadStop (List UInt8) := do
  let line ← okOr lines[place]? .panicked
  let bytes ← (hexDecode (String.ofList (trim line))).mapError fun _ => .refused hex
  ensure (bytes.length = size) (.refused (wrong bytes.length))
  return bytes

def readG1Lines (lines : List (List Char)) : Nat → Nat → Except LoadStop (List curve.G1)
  | 0, _ => .ok []
  | count + 1, index => do
      let bytes ← readHexLine lines (2 + index) 48 (.g1Hex index) (.g1Size index)
      let point ← okOr (curve.g1DeserializeCompressed bytes) (.refused (.g1Deserialize index))
      let points ← readG1Lines lines count (index + 1)
      return point :: points

/-- The points in the text. The expected number of lines is a machine word, whose sum wraps
around. -/
def readCeremonyText (text : List Char) : Except LoadStop (Srs curve) := do
  let lines := lines text
  ensure (4 ≤ lines.length) (.refused .textTooShort)
  let g1Line ← okOr lines[0]? .panicked
  let numG1 ← (parseUsize (trim g1Line)).mapError fun _ => .refused .g1Count
  let g2Line ← okOr lines[1]? .panicked
  let numG2 ← (parseUsize (trim g2Line)).mapError fun _ => .refused .g2Count
  ensure (numG1 ≠ 0) (.refused .noG1Points)
  ensure (2 ≤ numG2) (.refused .fewG2Points)
  let expectedLines := (2 + numG1 + numG2) % 2 ^ 64
  ensure (expectedLines ≤ lines.length) (.refused (.missingLines expectedLines lines.length))
  let powersOfG1 ← readG1Lines curve lines numG1 0
  let tauBytes ← readHexLine lines (2 + numG1 + 1) 96 .tauHex .tauSize
  let tauG2 ← okOr (curve.g2DeserializeCompressed tauBytes) (.refused .tauDeserialize)
  return { powersOfG1 := powersOfG1, tauG2 := tauG2 }

def slice (bytes : List UInt8) (offset size : Nat) : Except LoadStop (List UInt8) :=
  if offset + size ≤ bytes.length then .ok ((bytes.drop offset).take size) else .error .panicked

def readG1Slices (bytes : List UInt8) :
    Nat → Nat → Nat → Except LoadStop (List curve.G1 × Nat)
  | 0, _, offset => .ok ([], offset)
  | count + 1, index, offset => do
      let encoded ← slice bytes offset 48
      let point ← okOr (curve.g1DeserializeCompressed encoded) (.refused (.g1Point index))
      let (points, last) ← readG1Slices bytes count (index + 1) (offset + 48)
      return (point :: points, last)

def readSrsBytes (bytes : List UInt8) : Except LoadStop (Srs curve) := do
  ensure (4 + 48 + 96 ≤ bytes.length) (.refused (.fileTooSmall bytes.length))
  let numG1 := value (bytes.take 4)
  let expectedSize := 4 + numG1 * 48 + 96
  ensure (expectedSize ≤ bytes.length)
    (.refused (.missingBytes expectedSize numG1 bytes.length))
  let (powersOfG1, offset) ← readG1Slices curve bytes numG1 0 4
  let encoded ← slice bytes offset 96
  let tauG2 ← okOr (curve.g2DeserializeCompressed encoded) (.refused .g2Point)
  return { powersOfG1 := powersOfG1, tauG2 := tauG2 }

namespace KzgProver
variable {curve : Curve} (prover : KzgProver curve)

/-- The fields are set when all points have been read. -/
def keep (read : Except LoadStop (Srs curve)) : KzgProver curve × Except LoadStop Unit :=
  match read with
  | .error stop => (prover, .error stop)
  | .ok srs => ({ srsG1 := srs.powersOfG1, tauG2 := some srs.tauG2 }, .ok ())

def loadSrsFromCeremonyText (text : List Char) : KzgProver curve × Except LoadStop Unit :=
  prover.keep (readCeremonyText curve text)

def loadSrsFromBytes (bytes : List UInt8) : KzgProver curve × Except LoadStop Unit :=
  prover.keep (readSrsBytes curve bytes)

end KzgProver

def isAsciiDigit (byte : UInt8) : Bool := 48 ≤ byte && byte ≤ 57

def startsAsText (bytes : List UInt8) : Bool :=
  4 < bytes.length && (bytes.head?.map isAsciiDigit).getD false

/-- `file` is what the file holds, if it can be read. -/
def KzgProver.loadSrsFromFile {curve : Curve} (prover : KzgProver curve)
    (file : Option (List UInt8)) : KzgProver curve × Except LoadStop Unit :=
  match file with
  | none => (prover, .error (.refused .unreadable))
  | some bytes =>
      if startsAsText bytes then
        match fromUtf8 bytes with
        | none => (prover, .error (.refused .notUtf8))
        | some text => prover.loadSrsFromCeremonyText text
      else prover.loadSrsFromBytes bytes

end Loading

section Files

/-- The encodings of the points have a fixed size and are read back. -/
structure CompressedPoints (curve : Curve) where
  g2SerializeCompressed : curve.G2 → List UInt8
  g1Length : ∀ point, (curve.g1SerializeCompressed point).length = 48
  g2Length : ∀ point, (g2SerializeCompressed point).length = 96
  g1Reads : ∀ point,
    curve.g1DeserializeCompressed (curve.g1SerializeCompressed point) = some point
  g2Reads : ∀ point, curve.g2DeserializeCompressed (g2SerializeCompressed point) = some point

/-- A setup with the points of the other group that stand around `[τ]₂` in the text. -/
structure Setup (curve : Curve) extends Srs curve where
  g2First : curve.G2
  g2Rest : List curve.G2
  nonempty : 1 ≤ powersOfG1.length

/-- How the text is written: the ends of the lines and the letters of the digits. -/
structure TextStyle where
  ending : LineEnding
  lastEnded : Bool
  hex : List UInt8 → List Char
  reads : ∀ bytes, hexDecode (String.ofList (hex bytes)) = .ok bytes
  plain : ∀ bytes, bytes ≠ [] → Plain (hex bytes)

variable {curve : Curve} (points : CompressedPoints curve) (setup : Setup curve)

def numG1 : Nat := setup.powersOfG1.length

def numG2 : Nat := setup.g2Rest.length + 2

/-- The documented binary format. -/
def binaryFile : List UInt8 :=
  bytes 4 (numG1 setup) ++ setup.powersOfG1.flatMap curve.g1SerializeCompressed ++
    points.g2SerializeCompressed setup.tauG2

/-- The documented text format. -/
def ceremonyLines (style : TextStyle) : List (List Char) :=
  Nat.toDigits 10 (numG1 setup) :: Nat.toDigits 10 (numG2 setup) ::
    (setup.powersOfG1.map (style.hex <| curve.g1SerializeCompressed ·) ++
      (setup.g2First :: setup.tauG2 :: setup.g2Rest).map
        (style.hex <| points.g2SerializeCompressed ·))

def ceremonyText (style : TextStyle) : List Char :=
  writeLines style.ending style.lastEnded (ceremonyLines points setup style)

def ceremonyFile (style : TextStyle) : List UInt8 :=
  utf8 (String.ofList (ceremonyText points setup style))

/-- The node holds exactly the points of the setup. -/
def holding : KzgProver curve :=
  { srsG1 := setup.powersOfG1, tauG2 := some setup.tauG2 }

end Files

section Binary
variable {curve : Curve}

theorem slice_middle (front middle back : List UInt8) :
    slice (front ++ middle ++ back) front.length middle.length = .ok middle := by
  have inside : front.length + middle.length ≤ (front ++ middle ++ back).length := by
    simp only [List.length_append]
    omega
  rw [slice, if_pos inside, List.append_assoc, List.drop_left, List.take_left]

/-- The points behind what has been read. -/
theorem readG1Slices_encoded (points : CompressedPoints curve) (list : List curve.G1)
    (front back : List UInt8) (index : Nat) :
    readG1Slices curve (front ++ list.flatMap curve.g1SerializeCompressed ++ back) list.length
      index front.length = .ok (list, front.length + 48 * list.length) := by
  induction list generalizing front index with
  | nil => rfl
  | cons point rest ih =>
      have size := points.g1Length point
      let next := front ++ curve.g1SerializeCompressed point
      have bytes : front ++ (point :: rest).flatMap curve.g1SerializeCompressed ++ back =
          next ++ rest.flatMap curve.g1SerializeCompressed ++ back := by
        simp [next]
      have first : slice (next ++ rest.flatMap curve.g1SerializeCompressed ++ back) front.length
          48 = .ok (curve.g1SerializeCompressed point) := by
        rw [← size, List.append_assoc]
        exact slice_middle front _ _
      have behind : front.length + 48 = next.length := by
        rw [List.length_append, size]
      have others := ih next (index + 1)
      rw [bytes, List.length_cons, readG1Slices, first, bind_ok, points.g1Reads, okOr, bind_ok,
        behind, others, ← behind]
      simp only [bind_ok, pure, Except.pure, Except.ok.injEq, Prod.mk.injEq, true_and]
      omega

theorem binaryFile_length (points : CompressedPoints curve) (setup : Setup curve) :
    (binaryFile points setup).length = 4 + 48 * numG1 setup + 96 := by
  have encoded : (setup.powersOfG1.flatMap curve.g1SerializeCompressed).length =
      48 * numG1 setup := by
    rw [List.length_flatMap, numG1]
    simp only [points.g1Length, List.map_const', List.sum_replicate, smul_eq_mul]
    omega
  rw [binaryFile, List.length_append, List.length_append, bytes_length, encoded, points.g2Length]

theorem binaryFile_number (points : CompressedPoints curve) (setup : Setup curve)
    (counted : numG1 setup < 2 ^ 32) :
    value ((binaryFile points setup).take 4) = numG1 setup := by
  have front : (binaryFile points setup).take 4 = bytes 4 (numG1 setup) := by
    rw [binaryFile, List.append_assoc]
    exact List.take_left' (bytes_length 4 _)
  rw [front]
  exact value_bytes_of_lt 4 _ counted

theorem readSrsBytes_binaryFile (points : CompressedPoints curve) (setup : Setup curve)
    (counted : numG1 setup < 2 ^ 32) :
    readSrsBytes curve (binaryFile points setup) = .ok setup.toSrs := by
  have some : 1 ≤ numG1 setup := setup.nonempty
  have length := binaryFile_length points setup
  have slices := readG1Slices_encoded points setup.powersOfG1 (bytes 4 (numG1 setup))
    (points.g2SerializeCompressed setup.tauG2) 0
  have last : slice (binaryFile points setup) (4 + 48 * numG1 setup) 96 =
      .ok (points.g2SerializeCompressed setup.tauG2) := by
    have middle := slice_middle
      (bytes 4 (numG1 setup) ++ setup.powersOfG1.flatMap curve.g1SerializeCompressed)
      (points.g2SerializeCompressed setup.tauG2) []
    have place : (bytes 4 (numG1 setup) ++
        setup.powersOfG1.flatMap curve.g1SerializeCompressed).length = 4 + 48 * numG1 setup := by
      have whole := length
      rw [binaryFile, List.length_append, points.g2Length] at whole
      omega
    rwa [List.append_nil, place, points.g2Length] at middle
  rw [bytes_length] at slices
  rw [readSrsBytes, ensure_bind_ok]
  refine ⟨by omega, ?_⟩
  simp only [binaryFile_number points setup counted]
  rw [ensure_bind_ok]
  refine ⟨by omega, ?_⟩
  have read : readG1Slices curve (binaryFile points setup) (numG1 setup) 0 4 =
      .ok (setup.powersOfG1, 4 + 48 * numG1 setup) := slices
  rw [read, bind_ok]
  simp only
  rw [last, bind_ok, points.g2Reads]
  rfl

end Binary

section Text
variable {curve : Curve}

theorem readHexLine_hex {lines : List (List Char)} {place : Nat} {bytes : List UInt8}
    (style : TextStyle) (some : bytes ≠ []) (found : lines[place]? = .some (style.hex bytes))
    (hex : SrsError) (wrong : Nat → SrsError) :
    readHexLine lines place bytes.length hex wrong = .ok bytes := by
  have trimmed := trim_plain (style.plain bytes some)
  rw [readHexLine, found, okOr, bind_ok, trimmed, style.reads]
  simp only [Except.mapError, bind_ok, ensure_bind_ok]
  exact ⟨trivial, rfl⟩

/-- The points behind the lines that have been read. -/
theorem readG1Lines_encoded (points : CompressedPoints curve) (style : TextStyle)
    (list : List curve.G1) (front back : List (List Char)) (index : Nat)
    (place : front.length = 2 + index) :
    readG1Lines curve (front ++ list.map (style.hex <| curve.g1SerializeCompressed ·) ++ back)
      list.length index = .ok list := by
  induction list generalizing front index with
  | nil => rfl
  | cons point rest ih =>
      have size := points.g1Length point
      have some : curve.g1SerializeCompressed point ≠ [] := by
        intro none
        rw [none] at size
        cases size
      let next := front ++ [style.hex (curve.g1SerializeCompressed point)]
      have whole : front ++ (point :: rest).map (style.hex <| curve.g1SerializeCompressed ·) ++
          back = next ++ rest.map (style.hex <| curve.g1SerializeCompressed ·) ++ back := by
        simp [next]
      have found : (next ++ rest.map (style.hex <| curve.g1SerializeCompressed ·) ++
          back)[2 + index]? = .some (style.hex (curve.g1SerializeCompressed point)) := by
        rw [← place]
        simp [next]
      have first := readHexLine_hex style some found (.g1Hex index) (.g1Size index)
      have behind : next.length = 2 + (index + 1) := by
        rw [List.length_append, List.length_singleton, place]
        omega
      have others := ih next (index + 1) behind
      rw [size] at first
      rw [whole, List.length_cons, readG1Lines, first, bind_ok, points.g1Reads, okOr, bind_ok,
        others]
      rfl

variable (points : CompressedPoints curve) (setup : Setup curve) (style : TextStyle)

theorem ceremonyLines_length :
    (ceremonyLines points setup style).length = 2 + numG1 setup + numG2 setup := by
  simp only [ceremonyLines, numG1, numG2, List.length_cons, List.length_append, List.length_map]
  omega

theorem ceremonyLines_plain : ∀ line ∈ ceremonyLines points setup style, Plain line := by
  have encoded (bytes : List UInt8) (size : Nat) (length : bytes.length = size)
      (some : 0 < size) : Plain (style.hex bytes) := by
    apply style.plain
    intro none
    rw [none] at length
    exact absurd length some.ne
  intro line member
  rcases List.mem_cons.mp member with rfl | later
  · exact toDigits_plain _
  · rcases List.mem_cons.mp later with rfl | coded
    · exact toDigits_plain _
    · rcases List.mem_append.mp coded with first | second
      · obtain ⟨point, _, rfl⟩ := List.mem_map.mp first
        exact encoded _ 48 (points.g1Length point) (by decide)
      · obtain ⟨point, _, rfl⟩ := List.mem_map.mp second
        exact encoded _ 96 (points.g2Length point) (by decide)

theorem readCeremonyText_ceremonyText
    (fits : 2 + numG1 setup + numG2 setup < 2 ^ 64) :
    readCeremonyText curve (ceremonyText points setup style) = .ok setup.toSrs := by
  have some : 1 ≤ numG1 setup := setup.nonempty
  have two : 2 ≤ numG2 setup := Nat.le_add_left 2 _
  have plain := ceremonyLines_plain points setup style
  have length := ceremonyLines_length points setup style
  have split : lines (ceremonyText points setup style) = ceremonyLines points setup style :=
    lines_writeLines _ _ plain
  have first : trim (Nat.toDigits 10 (numG1 setup)) = Nat.toDigits 10 (numG1 setup) :=
    trim_plain (toDigits_plain _)
  have second : trim (Nat.toDigits 10 (numG2 setup)) = Nat.toDigits 10 (numG2 setup) :=
    trim_plain (toDigits_plain _)
  have expected : (2 + numG1 setup + numG2 setup) % 2 ^ 64 = 2 + numG1 setup + numG2 setup :=
    Nat.mod_eq_of_lt fits
  have g1 : readG1Lines curve (ceremonyLines points setup style) (numG1 setup) 0 =
      .ok setup.powersOfG1 :=
    readG1Lines_encoded points style setup.powersOfG1
      [Nat.toDigits 10 (numG1 setup), Nat.toDigits 10 (numG2 setup)] _ 0 rfl
  have tauSize := points.g2Length setup.tauG2
  have tauSome : points.g2SerializeCompressed setup.tauG2 ≠ [] := by
    intro none
    rw [none] at tauSize
    cases tauSize
  have tauPlace : (ceremonyLines points setup style)[2 + numG1 setup + 1]? =
      .some (style.hex (points.g2SerializeCompressed setup.tauG2)) := by
    have order : 2 + numG1 setup + 1 = (setup.powersOfG1.length + 1) + 1 + 1 := by
      rw [numG1]
      omega
    rw [order, ceremonyLines, List.getElem?_cons_succ, List.getElem?_cons_succ,
      List.getElem?_append_right (by simp)]
    simp
  have tau := readHexLine_hex style tauSome tauPlace .tauHex .tauSize
  rw [tauSize] at tau
  rw [readCeremonyText]
  simp only [split]
  rw [ensure_bind_ok]
  refine ⟨by omega, ?_⟩
  have line0 : (ceremonyLines points setup style)[0]? = .some (Nat.toDigits 10 (numG1 setup)) := rfl
  have line1 : (ceremonyLines points setup style)[1]? = .some (Nat.toDigits 10 (numG2 setup)) := rfl
  rw [line0, okOr, bind_ok, first, parseUsize_toDigits (by omega), line1]
  simp only [okOr, Except.mapError, bind_ok, second]
  rw [parseUsize_toDigits (by omega)]
  simp only [bind_ok, ensure_bind_ok, expected]
  refine ⟨by omega, two, by omega, ?_⟩
  rw [g1, bind_ok, tau, bind_ok, points.g2Reads]
  rfl

end Text

section Detection
variable {curve : Curve}

theorem digit_encoded {char : Char} (digit : char.isDigit = true) :
    ∃ byte, String.utf8EncodeChar char = [byte] ∧ isAsciiDigit byte = true := by
  have range : 48 ≤ char.toNat ∧ char.toNat ≤ 57 := by
    change (decide ('0'.val ≤ char.val) && decide (char.val ≤ '9'.val)) = true at digit
    simp only [Bool.and_eq_true, decide_eq_true_eq, UInt32.le_iff_toNat_le] at digit
    exact digit
  have code : Char.ofNat char.toNat = char := Char.ofNat_toNat char
  have codes : ∀ place : Fin 10, ∃ byte, String.utf8EncodeChar (Char.ofNat (48 + place)) =
      [byte] ∧ isAsciiDigit byte = true := by
    intro place
    exact ⟨UInt8.ofNat (48 + place), by revert place; decide +kernel, by revert place; decide⟩
  have found := codes ⟨char.toNat - 48, by omega⟩
  simp only at found
  rwa [Nat.add_sub_cancel' range.1, code] at found

theorem writeLines_cons (ending : LineEnding) (last : Bool) (line : List Char)
    (rest : List (List Char)) : ∃ tail, writeLines ending last (line :: rest) = line ++ tail := by
  cases rest with
  | nil =>
      cases last with
      | true => exact ⟨ending.chars, rfl⟩
      | false => exact ⟨[], (List.append_nil line).symm⟩
  | cons next more => exact ⟨_, List.append_assoc _ _ _⟩

theorem startsAsText_ceremonyFile (points : CompressedPoints curve) (setup : Setup curve)
    (style : TextStyle) : startsAsText (ceremonyFile points setup style) = true := by
  have plain := ceremonyLines_plain points setup style
  have many := ceremonyLines_length points setup style
  have some : 1 ≤ numG1 setup := setup.nonempty
  have two : 2 ≤ numG2 setup := Nat.le_add_left 2 _
  have chars := length_writeLines style.ending style.lastEnded plain
  have bytes := length_le_width (ceremonyText points setup style)
  have long : 4 < (ceremonyFile points setup style).length := by
    rw [ceremonyText] at bytes
    rw [ceremonyFile, ceremonyText]
    rw [width] at bytes
    omega
  obtain ⟨char, others, digits⟩ :=
    List.exists_cons_of_ne_nil (Nat.toDigits_ne_nil (n := numG1 setup) (b := 10))
  have digit : char.isDigit = true := Nat.isDigit_of_mem_toDigits (by decide) (by decide)
    (digits ▸ List.mem_cons_self)
  obtain ⟨tail, begins⟩ := writeLines_cons style.ending style.lastEnded
    (Nat.toDigits 10 (numG1 setup)) ((ceremonyLines points setup style).tail)
  have text : ceremonyText points setup style = char :: (others ++ tail) := by
    rw [ceremonyText]
    exact begins.trans (by rw [digits, List.cons_append])
  obtain ⟨byte, single, ascii⟩ := digit_encoded digit
  have file : ceremonyFile points setup style = byte :: utf8 (String.ofList (others ++ tail)) := by
    rw [ceremonyFile, text, utf8_cons, single]
    rfl
  rw [startsAsText, decide_eq_true long, file]
  exact ascii

theorem startsAsText_binaryFile (points : CompressedPoints curve) (setup : Setup curve) :
    startsAsText (binaryFile points setup) = isAsciiDigit (UInt8.ofNat (numG1 setup)) := by
  have length := binaryFile_length points setup
  have long : 4 < (binaryFile points setup).length := by omega
  have first : (binaryFile points setup).head? = some (UInt8.ofNat (numG1 setup)) := rfl
  rw [startsAsText, decide_eq_true long, first]
  rfl

theorem readHexLine_width {lines : List (List Char)} {place size : Nat} {hex : SrsError}
    {wrong : Nat → SrsError} {bytes : List UInt8}
    (read : readHexLine lines place size hex wrong = .ok bytes) :
    ∃ line, lines[place]? = some line ∧ 2 * size ≤ width line := by
  rw [readHexLine, okOr_bind_ok] at read
  obtain ⟨line, found, decoding⟩ := read
  obtain ⟨decoded, mapped, sized⟩ := (bind_ok_iff ..).mp decoding
  have size := ((ensure_bind_ok ..).mp sized).1
  have wide := hexDecode_width (mapError_ok mapped)
  have trimmed := width_trim_le line
  exact ⟨line, found, by omega⟩

/-- A point in the text takes up twice its size. -/
theorem readG1Lines_width {lines : List (List Char)} {count index : Nat} {list : List curve.G1}
    (read : readG1Lines curve lines count index = .ok list) :
    list.length = count ∧ 96 * count ≤ ((lines.drop (2 + index)).map width).sum := by
  induction count generalizing index list with
  | zero =>
      cases read
      exact ⟨rfl, Nat.zero_le _⟩
  | succ count ih =>
      rw [readG1Lines] at read
      obtain ⟨bytes, hexed, next⟩ := (bind_ok_iff ..).mp read
      obtain ⟨point, _, later⟩ := (okOr_bind_ok ..).mp next
      obtain ⟨others, rest, whole⟩ := (bind_ok_iff ..).mp later
      cases whole
      obtain ⟨length, wide⟩ := ih rest
      obtain ⟨line, found, lineWide⟩ := readHexLine_width hexed
      obtain ⟨inside, same⟩ := List.getElem?_eq_some_iff.mp found
      have split := List.drop_eq_getElem_cons inside
      rw [split, same, List.map_cons, List.sum_cons]
      refine ⟨by rw [List.length_cons, length], ?_⟩
      have order : 2 + (index + 1) = 2 + index + 1 := rfl
      rw [order] at wide
      omega

theorem readCeremonyText_width {text : List Char} {srs : Srs curve}
    (read : readCeremonyText curve text = .ok srs) :
    96 * srs.powersOfG1.length ≤ width text := by
  rw [readCeremonyText] at read
  obtain ⟨_, first⟩ := (ensure_bind_ok ..).mp read
  obtain ⟨_, _, second⟩ := (okOr_bind_ok ..).mp first
  obtain ⟨numG1, _, third⟩ := (bind_ok_iff ..).mp second
  obtain ⟨_, _, fourth⟩ := (okOr_bind_ok ..).mp third
  obtain ⟨_, _, checks⟩ := (bind_ok_iff ..).mp fourth
  obtain ⟨_, _, _, body⟩ : _ ∧ _ ∧ _ ∧ _ := by
    simpa only [ensure_bind_ok] using checks
  obtain ⟨powersOfG1, g1, tail⟩ := (bind_ok_iff ..).mp body
  obtain ⟨_, _, last⟩ := (bind_ok_iff ..).mp tail
  obtain ⟨_, _, whole⟩ := (okOr_bind_ok ..).mp last
  cases whole
  obtain ⟨length, wide⟩ := readG1Lines_width g1
  have all := width_linesFrom_le [] text
  have part : ((lines text).take 2).map width ++ ((lines text).drop 2).map width =
      (lines text).map width := by
    rw [← List.map_append, List.take_append_drop]
  have sums := congrArg List.sum part
  rw [List.sum_append] at sums
  simp only [Nat.add_zero] at wide
  rw [width_nil] at all
  unfold lines at sums wide
  simp only
  omega

/-- The text of as many points would be longer than the file. -/
theorem binaryFile_not_text (points : CompressedPoints curve) (setup : Setup curve)
    (digit : isAsciiDigit (UInt8.ofNat (numG1 setup)) = true) {text : List Char}
    (read : fromUtf8 (binaryFile points setup) = some text) :
    readCeremonyText curve text ≠ .ok setup.toSrs := by
  intro loaded
  have wide := readCeremonyText_width loaded
  have bytes := fromUtf8_width read
  have length := binaryFile_length points setup
  have many : 48 ≤ numG1 setup := by
    simp only [isAsciiDigit, Bool.and_eq_true, decide_eq_true_eq, UInt8.le_iff_toNat_le,
      UInt8.toNat_ofNat'] at digit
    have low := digit.1
    change 48 ≤ numG1 setup % 2 ^ 8 at low
    omega
  unfold numG1 at length many
  omega

end Detection

section Load
variable {curve : Curve}

theorem keep_failed {prover : KzgProver curve} {read : Except LoadStop (Srs curve)}
    {stop : LoadStop} (failed : (prover.keep read).2 = .error stop) :
    (prover.keep read).1 = prover := by
  cases read with
  | error error => rfl
  | ok srs => cases failed

/-- A file that is not loaded leaves the setup as it was. -/
theorem load_failed {prover : KzgProver curve} {file : Option (List UInt8)} {stop : LoadStop}
    (failed : (prover.loadSrsFromFile file).2 = .error stop) :
    (prover.loadSrsFromFile file).1 = prover := by
  cases file with
  | none => rfl
  | some bytes =>
      simp only [KzgProver.loadSrsFromFile] at failed ⊢
      split at failed
      · rename_i text
        rw [if_pos text]
        cases decoded : fromUtf8 bytes with
        | none => rfl
        | some chars =>
            rw [decoded] at failed
            exact keep_failed failed
      · rename_i binary
        rw [if_neg binary]
        exact keep_failed failed

/-- The file is taken, and its points are the setup. -/
def Loads (prover : KzgProver curve) (setup : Setup curve) (file : List UInt8) : Prop :=
  prover.loadSrsFromFile (some file) = (holding setup, .ok ())

theorem ceremonyFile_loads (points : CompressedPoints curve) (prover : KzgProver curve)
    (setup : Setup curve) (style : TextStyle) (fits : 2 + numG1 setup + numG2 setup < 2 ^ 64) :
    Loads prover setup (ceremonyFile points setup style) := by
  have text := startsAsText_ceremonyFile points setup style
  have decoded : fromUtf8 (ceremonyFile points setup style) =
      some (ceremonyText points setup style) := fromUtf8_utf8 _
  simp only [Loads, KzgProver.loadSrsFromFile, if_pos text, decoded]
  rw [KzgProver.loadSrsFromCeremonyText, readCeremonyText_ceremonyText points setup style fits]
  rfl

theorem binaryFile_loads_iff (points : CompressedPoints curve) (prover : KzgProver curve)
    (setup : Setup curve) (counted : numG1 setup < 2 ^ 32) :
    Loads prover setup (binaryFile points setup) ↔
      isAsciiDigit (UInt8.ofNat (numG1 setup)) = false := by
  have begins := startsAsText_binaryFile points setup
  cases digit : isAsciiDigit (UInt8.ofNat (numG1 setup)) with
  | false =>
      rw [digit] at begins
      simp only [Loads, KzgProver.loadSrsFromFile, begins, Bool.false_eq_true, ↓reduceIte,
        iff_true]
      rw [KzgProver.loadSrsFromBytes, readSrsBytes_binaryFile points setup counted]
      rfl
  | true =>
      rw [digit] at begins
      simp only [Loads, KzgProver.loadSrsFromFile, begins, ↓reduceIte, Bool.true_eq_false,
        iff_false]
      cases decoded : fromUtf8 (binaryFile points setup) with
      | none =>
          intro loaded
          cases (Prod.mk.inj loaded).2
      | some text =>
          intro loaded
          have differs := binaryFile_not_text points setup digit decoded
          simp only [KzgProver.loadSrsFromCeremonyText] at loaded
          cases read : readCeremonyText curve text with
          | error stop =>
              rw [read] at loaded
              cases (Prod.mk.inj loaded).2
          | ok srs =>
              rw [read] at loaded
              have same := (Prod.mk.inj loaded).1
              simp only [holding, KzgProver.mk.injEq, Option.some.injEq] at same
              obtain ⟨powersOfG1, tauG2⟩ := srs
              apply differs
              have powers : powersOfG1 = setup.powersOfG1 := same.1
              have tau : tauG2 = setup.tauG2 := same.2
              rw [read, powers, tau]

/-- A setup is loaded from its binary file as from its texts, and a file that fails leaves the
setup as it was, exactly where the low byte of the number of points is no digit of text. -/
theorem setup_files_load_iff (points : CompressedPoints curve) (prover : KzgProver curve)
    (setup : Setup curve) :
    ((numG1 setup < 2 ^ 32 → Loads prover setup (binaryFile points setup)) ∧
      (∀ style, 2 + numG1 setup + numG2 setup < 2 ^ 64 →
        Loads prover setup (ceremonyFile points setup style)) ∧
      (∀ file stop, (prover.loadSrsFromFile file).2 = .error stop →
        (prover.loadSrsFromFile file).1 = prover)) ↔
    (numG1 setup < 2 ^ 32 → isAsciiDigit (UInt8.ofNat (numG1 setup)) = false) := by
  constructor
  · rintro ⟨binary, _, _⟩ counted
    exact (binaryFile_loads_iff points prover setup counted).mp (binary counted)
  · intro noDigit
    refine ⟨fun counted => (binaryFile_loads_iff points prover setup counted).mpr
      (noDigit counted), ceremonyFile_loads points prover setup, ?_⟩
    intro file stop failed
    exact load_failed failed

end Load

section Exponents

theorem padded_length (point : Fr) (count : Nat) :
    (scalarToBytes point ++ List.replicate count 0).length = 32 + count := by
  rw [List.length_append, scalarToBytes_length, List.length_replicate]

theorem padded_decodes (point : Fr) :
    (if (scalarToBytes point ++ List.replicate 64 0).length = 96 then
      some (bytesToScalar (scalarToBytes point ++ List.replicate 64 0)) else none) =
        some point := by
  rw [if_pos (padded_length point 64), bytesToScalar, value_append_zeros]
  exact congrArg some (bytesToScalar_scalarToBytes point)

def exponentPoints : CompressedPoints exponentCurve where
  g2SerializeCompressed (point : Fr) := scalarToBytes point ++ List.replicate 64 0
  g1Length (point : Fr) := padded_length point 16
  g2Length (point : Fr) := padded_length point 64
  g1Reads := exponent_decodes
  g2Reads := padded_decodes

def lowerCase : TextStyle where
  ending := .newline
  lastEnded := true
  hex bytes := bytes.flatMap hexByte
  reads := hexDecode_toHex
  plain bytes some := by
    have digits : ∀ digit : Fin 16, (Nat.digitChar digit).isAlphanum = true := by decide +kernel
    constructor
    · intro none
      obtain ⟨byte, rest, rfl⟩ := List.exists_cons_of_ne_nil some
      cases none
    · intro char member
      obtain ⟨byte, _, digit⟩ := List.mem_flatMap.mp member
      have small : byte.toNat < 256 := byte.toNat_lt
      rcases List.mem_cons.mp digit with rfl | last
      · exact digits ⟨byte.toNat / 16, by omega⟩
      · cases List.mem_singleton.mp last
        exact digits ⟨byte.toNat % 16, by omega⟩

theorem zeros_length (count : Nat) : (List.replicate (count + 1) (0 : Fr)).length = count + 1 :=
  List.length_replicate

def zeroSetup (count : Nat) : Setup exponentCurve where
  powersOfG1 := List.replicate (count + 1) (0 : Fr)
  tauG2 := (0 : Fr)
  g2First := (1 : Fr)
  g2Rest := []
  nonempty := (Nat.le_add_left 1 count).trans_eq (zeros_length count).symm

def emptyProver : KzgProver exponentCurve := { srsG1 := [], tauG2 := none }

theorem zeroSetup_count (count : Nat) : numG1 (zeroSetup count) = count + 1 := zeros_length count

/-- A setup of four points, from either file. -/
theorem four_points_load :
    Loads emptyProver (zeroSetup 3) (binaryFile exponentPoints (zeroSetup 3)) ∧
      Loads emptyProver (zeroSetup 3) (ceremonyFile exponentPoints (zeroSetup 3) lowerCase) := by
  have judged := (setup_files_load_iff exponentPoints emptyProver (zeroSetup 3)).mpr fun _ => by
    rw [zeroSetup_count]
    decide
  refine ⟨judged.1 ?_, judged.2.1 lowerCase ?_⟩
  · rw [zeroSetup_count]
    decide
  · rw [zeroSetup_count]
    decide

/-- A setup of forty-eight points, whose binary file starts with the code of a zero. -/
theorem fortyEight_points_refused :
    numG1 (zeroSetup 47) = 48 ∧
      ¬ Loads emptyProver (zeroSetup 47) (binaryFile exponentPoints (zeroSetup 47)) ∧
      Loads emptyProver (zeroSetup 47) (ceremonyFile exponentPoints (zeroSetup 47) lowerCase) := by
  have count : numG1 (zeroSetup 47) = 48 := zeroSetup_count 47
  refine ⟨count, ?_, ?_⟩
  · rw [binaryFile_loads_iff exponentPoints emptyProver (zeroSetup 47) (by rw [count]; decide),
      count]
    decide
  · apply ceremonyFile_loads
    rw [count]
    decide

end Exponents
end Anarchy.ProverSetup
