import Mathlib.Data.List.Basic
import TCMalloc.Lib.Align

/-!
`GetBuildId` of `profile_builder.cc`: the walk over the notes of every `PT_NOTE`
segment of a loaded object, looking for the GNU build id.

Memory is the bytes of each `PT_NOTE` segment, `[dlpi_addr + p_vaddr,
dlpi_addr + p_vaddr + p_filesz)`, as a list: a read outside it is `none`, so a run
that returns `some` read only inside its segments.  `ElfW(Word)` values are
naturals below `2 ^ 32` and the arithmetic on them is `% 2 ^ 32`, except the sum of
`desc_start`, which the `sizeof` operand makes a `size_t`.  The loop over a segment
takes a fuel argument that is never exhausted (`walkNotes_isSome`), in place of its
termination.  The `std::string` result is its list of characters.

`absl::BytesToHexString` is Abseil's, not part of these sources: the walk takes it as a
function `hex`, and the proofs use only what its documentation says,
`BytesToHexStringSpec`; `bytesToHexString` is one function that meets it.
-/

set_option autoImplicit false
set_option relaxedAutoImplicit false

namespace TCMalloc.Internal.BuildId

open TCMalloc.Lib.Align

/-- `PT_NOTE`. -/
def ptNote : Nat := 4

/-- `NT_GNU_BUILD_ID`. -/
def ntGnuBuildId : Nat := 3

/-- `"GNU\0"`. -/
def gnuName : List UInt8 := [71, 78, 85, 0]

/-- `sizeof(ElfW(Nhdr))`: three `ElfW(Word)`s. -/
def nhdrSize : Nat := 12

/-- A program header with its segment: `p_type`, `p_align` (an `Elf64_Xword`) and the
`p_filesz` bytes from `dlpi_addr + p_vaddr`. -/
structure Phdr where
  type : Nat
  align : Nat
  bytes : List UInt8

/-- The little-endian value of some bytes. -/
def decodeLE (bs : List UInt8) : Nat := bs.foldr (fun b acc => b.toNat + 256 * acc) 0

/-- The `n` bytes at offset `off` of a segment; `none` past its end. -/
def readBytes (seg : List UInt8) (off n : Nat) : Option (List UInt8) :=
  if off + n ≤ seg.length then some ((seg.drop off).take n) else none

/-- The `ElfW(Word)` at offset `off`. -/
def readWord (seg : List UInt8) (off : Nat) : Option Nat := decodeLE <$> readBytes seg off 4

/-- `ElfW(Word)` arithmetic. -/
def word (n : Nat) : Nat := n % 2 ^ 32

theorem word_lt (n : Nat) : word n < 2 ^ 32 := Nat.mod_lt _ (by decide)

/-- `-align` of an `ElfW(Word)`. -/
def negWord (align : Nat) : Nat := word (2 ^ 32 - align)

/-- `desc_start`: the header and the name rounded up, summed in `size_t`, masked with
the widened `-align` and narrowed to a word. -/
def descStart (align namesz : Nat) : Nat := word ((nhdrSize + namesz + align - 1) &&& negWord align)

/-- `size`: `desc_start` plus the descriptor rounded up, where `n_descsz + align - 1`
wraps. -/
def noteSize (align namesz descsz : Nat) : Nat :=
  word (descStart align namesz + (word (descsz + align + 2 ^ 32 - 1) &&& negWord align))

/-- The wrap-around guards of the loop, and whether the note overruns the `left`
bytes `last - note`. -/
def corrupt (left align namesz descsz : Nat) : Bool :=
  namesz ≥ negWord align || descsz ≥ negWord align || descStart align namesz < nhdrSize ||
    noteSize align namesz descsz < descStart align namesz || noteSize align namesz descsz > left

/-- `n_type == NT_GNU_BUILD_ID`, then `n_namesz == 4 && memcmp(note_name, "GNU\0", 4) == 0`,
which reads the name only when the rest holds. -/
def isGnuBuildId (seg : List UInt8) (off type namesz : Nat) : Option Bool :=
  if type = ntGnuBuildId ∧ namesz = 4 then (· == gnuName) <$> readBytes seg (off + nhdrSize) 4
  else some false

/-- A lowercase hex digit. -/
def hexDigit (n : Nat) : Char := if n < 10 then Char.ofNat (48 + n) else Char.ofNat (87 + n)

/-- `absl::BytesToHexString` as its documentation describes it: two lowercase hex digits
per byte. -/
def bytesToHexString (bs : List UInt8) : List Char :=
  bs.flatMap fun b => [hexDigit (b.toNat / 16), hexDigit (b.toNat % 16)]

/-- What `GetBuildId` relies on of `absl::BytesToHexString`, as documented: a string of
twice as many characters as there are bytes. -/
structure BytesToHexStringSpec (hex : List UInt8 → List Char) : Prop where
  length_eq : ∀ bs, (hex bs).length = 2 * bs.length

/-- How the walk of a segment ends: with the `result` so far, or by `return ""` on a
repeated build id. -/
inductive Walk
  | done (result : List Char)
  | repeated
  deriving DecidableEq

/-- The `while (note < last)` loop over one segment from offset `off`, with the
`result` so far; `none` on a read outside the segment or when `fuel` runs out. -/
def walkNotes (hex : List UInt8 → List Char) (seg : List UInt8) (align : Nat) : Nat → Nat → List Char → Option Walk
  | 0, _, _ => none
  | fuel + 1, off, result =>
    if off < seg.length then
      if off + nhdrSize > seg.length then some (.done result)
      else do
        let namesz ← readWord seg off
        let descsz ← readWord seg (off + 4)
        let type ← readWord seg (off + 8)
        if corrupt (seg.length - off) align namesz descsz then some (.done result)
        else
          let found ← isGnuBuildId seg off type namesz
          if found then
            if !result.isEmpty then some .repeated
            else
              let desc ← readBytes seg (off + descStart align namesz) descsz
              walkNotes hex seg align fuel (off + noteSize align namesz descsz) (hex desc)
          else walkNotes hex seg align fuel (off + noteSize align namesz descsz) result
    else some (.done result)

/-- The loop over the program headers, with the `result` so far. -/
def getBuildIdLoop (hex : List UInt8 → List Char) : List Phdr → List Char → Option (List Char)
  | [], result => some result
  | p :: ps, result =>
    if p.type = ptNote then
      match walkNotes hex p.bytes (word p.align) (p.bytes.length + 1) 0 result with
      | none => none
      | some .repeated => some []
      | some (.done result) => getBuildIdLoop hex ps result
    else getBuildIdLoop hex ps result

/-- `GetBuildId(info)`. -/
def getBuildId (hex : List UInt8 → List Char) (phdrs : List Phdr) : Option (List Char) :=
  getBuildIdLoop hex phdrs []

variable {hex : List UInt8 → List Char}

/-! ### Reads -/

/-- The word at `off`, read without a check. -/
def wordAt (seg : List UInt8) (off : Nat) : Nat := decodeLE ((seg.drop off).take 4)

/-- The note at `off` is a GNU build id. -/
def gnuAt (seg : List UInt8) (off : Nat) : Bool :=
  wordAt seg (off + 8) == ntGnuBuildId && wordAt seg off == 4 &&
    (seg.drop (off + nhdrSize)).take 4 == gnuName

/-- The descriptor of the note at `off`, from the code's `desc_start`. -/
def descAt (seg : List UInt8) (align off : Nat) : List UInt8 :=
  (seg.drop (off + descStart align (wordAt seg off))).take (wordAt seg (off + 4))

theorem readBytes_of_le {seg : List UInt8} {off n : Nat} (h : off + n ≤ seg.length) :
    readBytes seg off n = some ((seg.drop off).take n) := if_pos h

theorem readWord_of_le {seg : List UInt8} {off : Nat} (h : off + 4 ≤ seg.length) :
    readWord seg off = some (wordAt seg off) := by
  simp [readWord, readBytes_of_le h, wordAt]

theorem isGnuBuildId_of_le {seg : List UInt8} {off : Nat} (h : off + nhdrSize + 4 ≤ seg.length) :
    isGnuBuildId seg off (wordAt seg (off + 8)) (wordAt seg off) = some (gnuAt seg off) := by
  unfold isGnuBuildId gnuAt
  by_cases hg : wordAt seg (off + 8) = ntGnuBuildId ∧ wordAt seg off = 4
  · simp [hg, readBytes_of_le h]
  · rw [if_neg hg]
    by_cases h3 : wordAt seg (off + 8) = ntGnuBuildId
    · simp [h3, show wordAt seg off ≠ 4 from fun h4 => hg ⟨h3, h4⟩]
    · simp [h3]

/-! ### The guards -/

theorem corrupt_eq_false_iff {left align namesz descsz : Nat} :
    corrupt left align namesz descsz = false ↔
      namesz < negWord align ∧ descsz < negWord align ∧ nhdrSize ≤ descStart align namesz ∧
        descStart align namesz ≤ noteSize align namesz descsz ∧ noteSize align namesz descsz ≤ left := by
  simp only [corrupt, Bool.or_eq_false_iff, decide_eq_false_iff_not, Nat.not_le, Nat.not_lt, and_assoc]

theorem negWord_zero : negWord 0 = 0 := rfl

theorem negWord_eq {align : Nat} (h0 : 0 < align) (h : align < 2 ^ 32) : negWord align = 2 ^ 32 - align :=
  Nat.mod_eq_of_lt (by omega)

theorem pos_of_lt_negWord {align n : Nat} (hn : n < negWord align) : 0 < align :=
  Nat.pos_of_ne_zero fun h0 => by simp [h0, negWord_zero] at hn

theorem descStart_eq {align namesz : Nat} :
    descStart align namesz = (nhdrSize + namesz + align - 1) &&& negWord align :=
  Nat.mod_eq_of_lt (Nat.and_lt_two_pow _ (Nat.mod_lt _ (by decide)))

theorem descStart_lt_of_wrap {align namesz : Nat} (h0 : 0 < align) (h : align < 2 ^ 32)
    (hn : namesz < 2 ^ 32 - align) (hx : 2 ^ 32 ≤ nhdrSize + namesz + align - 1) :
    descStart align namesz < nhdrSize := by
  have := and_le_mod (w := 32) (nhdrSize + namesz + align - 1) (show 2 ^ 32 - align < 2 ^ 32 by omega)
  rw [descStart_eq, negWord_eq h0 h]
  unfold nhdrSize at *
  omega

theorem le_descStart {align namesz : Nat} (h : align < 2 ^ 32) (hn : namesz < negWord align)
    (h12 : nhdrSize ≤ descStart align namesz) : nhdrSize + namesz ≤ descStart align namesz := by
  have h0 := pos_of_lt_negWord hn
  rw [negWord_eq h0 h] at hn
  by_cases hx : nhdrSize + namesz + align - 1 < 2 ^ 32
  · have := le_and_add hx (show 2 ^ 32 - align < 2 ^ 32 by omega)
    rw [descStart_eq, negWord_eq h0 h]
    omega
  · exact absurd h12 (Nat.not_le.mpr (descStart_lt_of_wrap h0 h hn (by omega)))

theorem word_descsz_eq {align descsz : Nat} (h0 : 0 < align) (hd : descsz + align < 2 ^ 32) :
    word (descsz + align + 2 ^ 32 - 1) = descsz + align - 1 := by
  unfold word
  rw [show descsz + align + 2 ^ 32 - 1 = descsz + align - 1 + 2 ^ 32 by omega, Nat.add_mod_right]
  exact Nat.mod_eq_of_lt (by omega)

theorem le_roundedDesc {align descsz : Nat} (h : align < 2 ^ 32) (hd : descsz < negWord align) :
    descsz ≤ word (descsz + align + 2 ^ 32 - 1) &&& negWord align := by
  have h0 := pos_of_lt_negWord hd
  rw [negWord_eq h0 h] at hd ⊢
  have := le_and_add (show descsz + align - 1 < 2 ^ 32 by omega) (show 2 ^ 32 - align < 2 ^ 32 by omega)
  rw [word_descsz_eq h0 (by omega)]
  omega

theorem noteSize_eq_of_le {align namesz descsz : Nat}
    (hsz : descStart align namesz ≤ noteSize align namesz descsz) :
    noteSize align namesz descsz =
      descStart align namesz + (word (descsz + align + 2 ^ 32 - 1) &&& negWord align) := by
  have hstart : descStart align namesz < 2 ^ 32 := Nat.mod_lt _ (by decide)
  have hround : word (descsz + align + 2 ^ 32 - 1) &&& negWord align < 2 ^ 32 :=
    Nat.and_lt_two_pow _ (Nat.mod_lt _ (by decide))
  generalize hr : word (descsz + align + 2 ^ 32 - 1) &&& negWord align = r at hround ⊢
  have hns : noteSize align namesz descsz = (descStart align namesz + r) % 2 ^ 32 := by
    rw [← hr]
    rfl
  rw [hns] at hsz ⊢
  by_cases hwrap : descStart align namesz + r < 2 ^ 32
  · exact Nat.mod_eq_of_lt hwrap
  · rw [Nat.mod_eq_sub_mod (by omega), Nat.mod_eq_of_lt (by omega)] at hsz
    omega

theorem bounds_of_not_corrupt {left align namesz descsz : Nat} (h : align < 2 ^ 32)
    (hc : corrupt left align namesz descsz = false) :
    nhdrSize + namesz ≤ descStart align namesz ∧
      descStart align namesz + descsz ≤ noteSize align namesz descsz ∧
      noteSize align namesz descsz ≤ left := by
  obtain ⟨hn, hd, h12, hsz, hleft⟩ := corrupt_eq_false_iff.mp hc
  refine ⟨le_descStart h hn h12, ?_, hleft⟩
  rw [noteSize_eq_of_le hsz]
  exact Nat.add_le_add_left (le_roundedDesc h hd) _

/-! ### One step of the loop -/

section Step

variable {seg : List UInt8} {align fuel off : Nat} {result : List Char}

theorem walkNotes_of_short (h : seg.length < off + nhdrSize) :
    walkNotes hex seg align (fuel + 1) off result = some (.done result) := by
  unfold walkNotes
  split_ifs <;> rfl

theorem walkNotes_of_corrupt (h : off + nhdrSize ≤ seg.length)
    (hc : corrupt (seg.length - off) align (wordAt seg off) (wordAt seg (off + 4)) = true) :
    walkNotes hex seg align (fuel + 1) off result = some (.done result) := by
  unfold nhdrSize at h
  simp [walkNotes, show off < seg.length by omega, show ¬ seg.length < off + nhdrSize by unfold nhdrSize; omega,
    readWord_of_le (show off + 4 ≤ seg.length by omega), readWord_of_le (show off + 4 + 4 ≤ seg.length by omega),
    readWord_of_le (show off + 8 + 4 ≤ seg.length by omega), hc]

theorem walkNotes_of_fits (h : off + nhdrSize ≤ seg.length) (halign : align < 2 ^ 32)
    (hc : corrupt (seg.length - off) align (wordAt seg off) (wordAt seg (off + 4)) = false) :
    walkNotes hex seg align (fuel + 1) off result =
      if gnuAt seg off then
        if !result.isEmpty then some .repeated
        else walkNotes hex seg align fuel (off + noteSize align (wordAt seg off) (wordAt seg (off + 4)))
          (hex (descAt seg align off))
      else walkNotes hex seg align fuel (off + noteSize align (wordAt seg off) (wordAt seg (off + 4))) result := by
  obtain ⟨hname, hdesc, hleft⟩ := bounds_of_not_corrupt halign hc
  have hgnu : isGnuBuildId seg off (wordAt seg (off + 8)) (wordAt seg off) = some (gnuAt seg off) := by
    by_cases h4 : wordAt seg off = 4
    · exact isGnuBuildId_of_le (by unfold nhdrSize at *; omega)
    · simp [isGnuBuildId, gnuAt, h4]
  unfold nhdrSize at h
  simp only [walkNotes, show off < seg.length by omega, show ¬ off + nhdrSize > seg.length by unfold nhdrSize; omega,
    readWord_of_le (show off + 4 ≤ seg.length by omega), readWord_of_le (show off + 4 + 4 ≤ seg.length by omega),
    readWord_of_le (show off + 8 + 4 ≤ seg.length by omega), hc, hgnu, if_true, if_false,
    Option.bind_eq_bind, Option.bind_some, Bool.false_eq_true]
  rw [readBytes_of_le (by omega)]
  rfl

end Step

/-! ### Memory safety and termination -/

theorem walkNotes_isSome {seg : List UInt8} {align : Nat} (halign : align < 2 ^ 32) :
    ∀ fuel off result, seg.length ≤ fuel + off → (walkNotes hex seg align (fuel + 1) off result).isSome
  | 0, off, result, h => by
    rw [walkNotes_of_short (by unfold nhdrSize; omega)]
    rfl
  | fuel + 1, off, result, h => by
    by_cases hshort : seg.length < off + nhdrSize
    · rw [walkNotes_of_short hshort]
      rfl
    cases hc : corrupt (seg.length - off) align (wordAt seg off) (wordAt seg (off + 4))
    · obtain ⟨hname, hdesc, -⟩ := bounds_of_not_corrupt halign hc
      have hnext : seg.length ≤ fuel + (off + noteSize align (wordAt seg off) (wordAt seg (off + 4))) := by
        unfold nhdrSize at hname
        omega
      rw [walkNotes_of_fits (by omega) halign hc]
      split_ifs
      · rfl
      · exact walkNotes_isSome halign fuel _ _ hnext
      · exact walkNotes_isSome halign fuel _ _ hnext
    · rw [walkNotes_of_corrupt (by omega) hc]
      rfl

theorem getBuildIdLoop_isSome :
    ∀ (phdrs : List Phdr) (result : List Char), (getBuildIdLoop hex phdrs result).isSome
  | [], _ => rfl
  | p :: ps, result => by
    unfold getBuildIdLoop
    split_ifs
    · obtain ⟨w, hw⟩ := Option.isSome_iff_exists.mp
        (walkNotes_isSome (word_lt p.align) p.bytes.length 0 result (Nat.le_refl _))
      rw [hw]
      cases w with
      | done r => exact getBuildIdLoop_isSome ps r
      | repeated => rfl
    · exact getBuildIdLoop_isSome ps result

/-! ### Power-of-two alignments -/

/-- The length of a note as the format lays it out for alignment `a`: the header and the
name rounded up, then the descriptor rounded up. -/
def alignedSize (a namesz descsz : Nat) : Nat := alignUp a (nhdrSize + namesz) + alignUp a descsz

section Pow

variable {k : Nat}

theorem word_two_pow_of_lt (hk : k < 32) : word (2 ^ k) = 2 ^ k :=
  Nat.mod_eq_of_lt (Nat.pow_lt_pow_right (by decide) hk)

theorem word_two_pow_of_le (hk : 32 ≤ k) : word (2 ^ k) = 0 :=
  Nat.mod_eq_zero_of_dvd (Nat.pow_dvd_pow 2 hk)

theorem two_pow_le_alignUp {x : Nat} (hk : k < 32) (hx : 2 ^ 32 - 2 ^ k < x) :
    2 ^ 32 ≤ alignUp (2 ^ k) x := by
  have hdvd : 2 ^ k ∣ 2 ^ 32 - 2 ^ k := Nat.dvd_sub (Nat.pow_dvd_pow 2 hk.le) (dvd_refl _)
  have hlt : 2 ^ k < 2 ^ 32 := Nat.pow_lt_pow_right (by decide) hk
  have := add_le_alignUp (Nat.two_pow_pos k) hdvd hx
  omega

theorem descStart_pow {namesz : Nat} (hk : k < 32) (hx : nhdrSize + namesz ≤ 2 ^ 32 - 2 ^ k) :
    descStart (2 ^ k) namesz = alignUp (2 ^ k) (nhdrSize + namesz) := by
  have hlt : 2 ^ k < 2 ^ 32 := Nat.pow_lt_pow_right (by decide) hk
  rw [descStart_eq, negWord_eq (Nat.two_pow_pos k) hlt, and_two_pow_sub_two_pow hk.le (by omega)]
  rfl

theorem roundedDesc_pow {descsz : Nat} (hk : k < 32) (hd : descsz < 2 ^ 32 - 2 ^ k) :
    word (descsz + 2 ^ k + 2 ^ 32 - 1) &&& negWord (2 ^ k) = alignUp (2 ^ k) descsz := by
  have hlt : 2 ^ k < 2 ^ 32 := Nat.pow_lt_pow_right (by decide) hk
  rw [word_descsz_eq (Nat.two_pow_pos k) (by omega), negWord_eq (Nat.two_pow_pos k) hlt,
    and_two_pow_sub_two_pow hk.le (by omega)]
  rfl

variable {left namesz descsz : Nat}

theorem fits_pow (hleft : left < 2 ^ 32) (hfit : alignedSize (2 ^ k) namesz descsz ≤ left) :
    k < 32 ∧ nhdrSize + namesz ≤ 2 ^ 32 - 2 ^ k ∧ descsz < 2 ^ 32 - 2 ^ k := by
  unfold alignedSize at hfit
  have hname := le_alignUp_of_pos (x := nhdrSize + namesz) (Nat.two_pow_pos k) (by unfold nhdrSize; omega)
  have hdesc := le_alignUp (x := descsz) (Nat.two_pow_pos k)
  have hk : k < 32 := by
    by_contra hk
    have : 2 ^ 32 ≤ 2 ^ k := Nat.pow_le_pow_right (by decide) (by omega)
    omega
  refine ⟨hk, ?_, by omega⟩
  by_contra hx
  have := two_pow_le_alignUp hk (x := nhdrSize + namesz) (by omega)
  omega

theorem noteSize_pow (hleft : left < 2 ^ 32) (hfit : alignedSize (2 ^ k) namesz descsz ≤ left) :
    descStart (word (2 ^ k)) namesz = alignUp (2 ^ k) (nhdrSize + namesz) ∧
      noteSize (word (2 ^ k)) namesz descsz = alignedSize (2 ^ k) namesz descsz := by
  obtain ⟨hk, hn, hd⟩ := fits_pow hleft hfit
  have hs := descStart_pow hk hn
  rw [word_two_pow_of_lt hk]
  refine ⟨hs, ?_⟩
  unfold noteSize
  rw [hs, roundedDesc_pow hk hd]
  exact Nat.mod_eq_of_lt (by unfold alignedSize at hfit; omega)

theorem corrupt_pow_eq_false_iff (hleft : left < 2 ^ 32) :
    corrupt left (word (2 ^ k)) namesz descsz = false ↔ alignedSize (2 ^ k) namesz descsz ≤ left := by
  constructor
  · intro hc
    obtain ⟨hn, hd, h12, hsz, hle⟩ := corrupt_eq_false_iff.mp hc
    have hk : k < 32 := by
      by_contra hk
      have := pos_of_lt_negWord hn
      rw [word_two_pow_of_le (by omega)] at this
      omega
    have hlt : 2 ^ k < 2 ^ 32 := Nat.pow_lt_pow_right (by decide) hk
    rw [word_two_pow_of_lt hk] at hn hd h12 hsz hle
    rw [negWord_eq (Nat.two_pow_pos k) hlt] at hn hd
    -- the sum of `desc_start` did not wrap, or its guard would have fired
    have hx : nhdrSize + namesz ≤ 2 ^ 32 - 2 ^ k := by
      by_contra hx
      exact absurd h12 (Nat.not_le.mpr
        (descStart_lt_of_wrap (Nat.two_pow_pos k) hlt hn (by unfold nhdrSize at *; omega)))
    rw [noteSize_eq_of_le hsz, descStart_pow hk hx, roundedDesc_pow hk hd] at hle
    exact hle
  · intro hfit
    obtain ⟨hk, hn, hd⟩ := fits_pow hleft hfit
    obtain ⟨hs, hsz⟩ := noteSize_pow hleft hfit
    have hname := le_alignUp (x := nhdrSize + namesz) (Nat.two_pow_pos k)
    rw [corrupt_eq_false_iff, hs, hsz, word_two_pow_of_lt hk,
      negWord_eq (Nat.two_pow_pos k) (Nat.pow_lt_pow_right (by decide) hk)]
    unfold alignedSize at hfit ⊢
    unfold nhdrSize at *
    omega

end Pow

/-! ### The notes as the format lays them out -/

/-- The offsets of the notes reached from `off` for alignment `a`: each starts where the
previous one ends, and the walk stops at the first whose header or body does not fit. -/
def noteOffsets (seg : List UInt8) (a : Nat) : Nat → Nat → List Nat
  | 0, _ => []
  | fuel + 1, off =>
    if off + nhdrSize ≤ seg.length ∧
        off + alignedSize a (wordAt seg off) (wordAt seg (off + 4)) ≤ seg.length then
      off :: noteOffsets seg a fuel (off + alignedSize a (wordAt seg off) (wordAt seg (off + 4)))
    else []

/-- The descriptor of the note at `off` as the format places it. -/
def noteDesc (seg : List UInt8) (a off : Nat) : List UInt8 :=
  (seg.drop (off + alignUp a (nhdrSize + wordAt seg off))).take (wordAt seg (off + 4))

/-- The descriptors of the GNU build-id notes among the notes at `offs`. -/
def buildIdDescs (seg : List UInt8) (a : Nat) (offs : List Nat) : List (List UInt8) :=
  offs.filterMap fun off => if gnuAt seg off then some (noteDesc seg a off) else none

/-- The descriptors of the GNU build-id notes reached in the `PT_NOTE` segments, in order. -/
def reachedBuildIds (phdrs : List Phdr) : List (List UInt8) :=
  phdrs.flatMap fun p =>
    if p.type = ptNote then buildIdDescs p.bytes p.align (noteOffsets p.bytes p.align p.bytes.length 0)
    else []

/-- The result the loop keeps over the build-id descriptors `ds`, from `result`. -/
def foldBuildIds (hex : List UInt8 → List Char) : List (List UInt8) → List Char → Walk
  | [], result => .done result
  | d :: ds, result => if !result.isEmpty then .repeated else foldBuildIds hex ds (hex d)

/-- Go on from a walk that ended with a result. -/
def Walk.andThen : Walk → (List Char → Walk) → Walk
  | .done result, f => f result
  | .repeated, _ => .repeated

/-- What `GetBuildId` returns after a walk. -/
def Walk.result : Walk → List Char
  | .done result => result
  | .repeated => []

@[simp] theorem buildIdDescs_nil {seg : List UInt8} {a : Nat} : buildIdDescs seg a [] = [] := rfl

@[simp] theorem buildIdDescs_cons {seg : List UInt8} {a off : Nat} {offs : List Nat} :
    buildIdDescs seg a (off :: offs) =
      if gnuAt seg off then noteDesc seg a off :: buildIdDescs seg a offs else buildIdDescs seg a offs := by
  unfold buildIdDescs
  split_ifs with h <;> simp [h]

theorem foldBuildIds_append (ds₁ ds₂ : List (List UInt8)) (result : List Char) :
    foldBuildIds hex (ds₁ ++ ds₂) result = (foldBuildIds hex ds₁ result).andThen (foldBuildIds hex ds₂) := by
  induction ds₁ generalizing result with
  | nil => rfl
  | cons d ds ih =>
    simp only [List.cons_append, foldBuildIds]
    split_ifs
    · rfl
    · exact ih _

theorem walkNotes_pow {seg : List UInt8} {k : Nat} (hL : seg.length < 2 ^ 32) :
    ∀ fuel off result, seg.length ≤ fuel + off →
      walkNotes hex seg (word (2 ^ k)) (fuel + 1) off result =
        some (foldBuildIds hex (buildIdDescs seg (2 ^ k) (noteOffsets seg (2 ^ k) fuel off)) result)
  | 0, off, result, h => by
    rw [walkNotes_of_short (by unfold nhdrSize; omega)]
    rfl
  | fuel + 1, off, result, h => by
    by_cases hshort : seg.length < off + nhdrSize
    · rw [walkNotes_of_short hshort]
      simp [noteOffsets, show ¬ off + nhdrSize ≤ seg.length by omega, foldBuildIds]
    by_cases hfit : off + alignedSize (2 ^ k) (wordAt seg off) (wordAt seg (off + 4)) ≤ seg.length
    · have hfit' : alignedSize (2 ^ k) (wordAt seg off) (wordAt seg (off + 4)) ≤ seg.length - off := by
        omega
      have hc := (corrupt_pow_eq_false_iff (show seg.length - off < 2 ^ 32 by omega)).mpr hfit'
      obtain ⟨hs, hsz⟩ := noteSize_pow (show seg.length - off < 2 ^ 32 by omega) hfit'
      have hdesc : descAt seg (word (2 ^ k)) off = noteDesc seg (2 ^ k) off := by
        unfold descAt noteDesc
        rw [hs]
      have hname := le_alignUp (x := nhdrSize + wordAt seg off) (Nat.two_pow_pos k)
      have hnext : ∀ r, walkNotes hex seg (word (2 ^ k)) (fuel + 1)
          (off + alignedSize (2 ^ k) (wordAt seg off) (wordAt seg (off + 4))) r =
            some (foldBuildIds hex (buildIdDescs seg (2 ^ k) (noteOffsets seg (2 ^ k) fuel
              (off + alignedSize (2 ^ k) (wordAt seg off) (wordAt seg (off + 4))))) r) :=
        fun r => walkNotes_pow hL fuel _ r (by unfold alignedSize nhdrSize at *; omega)
      have hoffs : noteOffsets seg (2 ^ k) (fuel + 1) off = off :: noteOffsets seg (2 ^ k) fuel
          (off + alignedSize (2 ^ k) (wordAt seg off) (wordAt seg (off + 4))) := by
        rw [noteOffsets, if_pos ⟨by omega, hfit⟩]
      rw [walkNotes_of_fits (by omega) (word_lt _) hc, hsz, hdesc, hoffs, buildIdDescs_cons]
      by_cases hg : gnuAt seg off
      · simp only [hg, if_true, foldBuildIds]
        split_ifs
        · rfl
        · exact hnext _
      · simp only [hg, Bool.false_eq_true, if_false]
        exact hnext _
    · have hc : corrupt (seg.length - off) (word (2 ^ k)) (wordAt seg off) (wordAt seg (off + 4)) = true := by
        rw [← Bool.not_eq_false, corrupt_pow_eq_false_iff (by omega)]
        omega
      rw [walkNotes_of_corrupt (by omega) hc]
      simp [noteOffsets, hfit, foldBuildIds]

theorem getBuildIdLoop_pow : ∀ (phdrs : List Phdr) (result : List Char),
    (∀ p ∈ phdrs, p.type = ptNote → p.align.isPowerOfTwo ∧ p.bytes.length < 2 ^ 32) →
      getBuildIdLoop hex phdrs result = some (foldBuildIds hex (reachedBuildIds phdrs) result).result
  | [], _, _ => rfl
  | p :: ps, result, hps => by
    have hrest := fun r => getBuildIdLoop_pow ps r fun q hq => hps q (List.mem_cons_of_mem p hq)
    unfold getBuildIdLoop
    simp only [reachedBuildIds, List.flatMap_cons] at hrest ⊢
    split_ifs with ht
    · obtain ⟨⟨k, hk⟩, hL⟩ := hps p List.mem_cons_self ht
      rw [hk, walkNotes_pow hL p.bytes.length 0 result (Nat.le_refl _), foldBuildIds_append]
      cases foldBuildIds hex (buildIdDescs p.bytes (2 ^ k) (noteOffsets p.bytes (2 ^ k) p.bytes.length 0)) result with
      | done r => exact hrest r
      | repeated => rfl
    · exact hrest result

/-! ### What the loop returns -/

/-- What the source returns for the build-id descriptors `ds` reached in order: the hex of
the last one when every one before it is empty (`""` when there is none), and `""` as soon
as a non-empty one is followed by another. -/
def buildIdOf (hex : List UInt8 → List Char) (ds : List (List UInt8)) : List Char :=
  if ∀ d ∈ ds.dropLast, d = [] then hex (ds.getLastD []) else []

theorem bytesToHexString_spec : BytesToHexStringSpec bytesToHexString := by
  refine ⟨fun bs => ?_⟩
  induction bs with
  | nil => rfl
  | cons b bs ih =>
    simp only [bytesToHexString, List.flatMap_cons, List.length_append, List.length_cons, List.length_nil] at ih ⊢
    omega

theorem BytesToHexStringSpec.eq_nil_iff (hhex : BytesToHexStringSpec hex) {bs : List UInt8} :
    hex bs = [] ↔ bs = [] := by
  rw [← List.length_eq_zero_iff, ← List.length_eq_zero_iff, hhex.length_eq]
  omega

theorem foldBuildIds_eq (ds : List (List UInt8)) (result : List Char) :
    foldBuildIds hex ds result =
      if ∀ r ∈ (result :: ds.map hex).dropLast, r = [] then
        .done ((ds.map hex).getLastD result)
      else .repeated := by
  induction ds generalizing result with
  | nil => simp [foldBuildIds]
  | cons d ds ih =>
    simp only [foldBuildIds, ih, List.map_cons, List.dropLast_cons_cons, List.forall_mem_cons,
      List.getLastD_cons]
    by_cases hr : result = []
    · simp [hr]
    · simp [hr]

theorem foldBuildIds_result (hhex : BytesToHexStringSpec hex) (ds : List (List UInt8)) :
    (foldBuildIds hex ds []).result = buildIdOf hex ds := by
  rw [foldBuildIds_eq, buildIdOf]
  rcases List.eq_nil_or_concat ds with rfl | ⟨L, d, rfl⟩
  · -- no build id at all: both sides are the hex of no bytes, which is empty
    have hnil : hex [] = [] := hhex.eq_nil_iff.mpr rfl
    simp [hnil, Walk.result]
  · rw [List.concat_eq_append]
    have hlast : ((L ++ [d]).map hex).getLastD [] = hex d := by simp
    have hdrop : ([] :: (L ++ [d]).map hex).dropLast = [] :: L.map hex := by
      rw [List.map_append, List.map_singleton, ← List.cons_append, List.dropLast_concat]
    rw [hlast, hdrop, List.dropLast_concat, List.getLastD_concat]
    simp only [List.forall_mem_cons, true_and, List.forall_mem_map, hhex.eq_nil_iff]
    split_ifs <;> rfl

/-- `GetBuildId` reads only inside its `PT_NOTE` segments and terminates, whatever their
contents and alignments; and with power-of-two alignments and segments below `4 GiB`, it
returns the hex of the last GNU build-id descriptor the walk of the notes reaches when
every one before it is empty, and `""` otherwise. -/
theorem getBuildId_reads_within_notes (hex : List UInt8 → List Char) (hhex : BytesToHexStringSpec hex)
    (phdrs : List Phdr) :
    (getBuildId hex phdrs).isSome ∧
      ((∀ p ∈ phdrs, p.type = ptNote → p.align.isPowerOfTwo ∧ p.bytes.length < 2 ^ 32) →
        getBuildId hex phdrs = some (buildIdOf hex (reachedBuildIds phdrs))) := by
  refine ⟨getBuildIdLoop_isSome phdrs [], fun hps => ?_⟩
  rw [getBuildId, getBuildIdLoop_pow phdrs [] hps, foldBuildIds_result hhex]

/-- A `PT_NOTE` segment aligned to 4 with one GNU build-id note, descriptor `0xab`. -/
def oneBuildId : List Phdr :=
  [⟨ptNote, 4, [4, 0, 0, 0, 1, 0, 0, 0, 3, 0, 0, 0, 71, 78, 85, 0, 171, 0, 0, 0]⟩]

theorem getBuildId_reads_within_notes_one_note :
    BytesToHexStringSpec bytesToHexString ∧
      (∀ p ∈ oneBuildId, p.type = ptNote → p.align.isPowerOfTwo ∧ p.bytes.length < 2 ^ 32) ∧
      getBuildId bytesToHexString oneBuildId = some (buildIdOf bytesToHexString (reachedBuildIds oneBuildId)) ∧
      buildIdOf bytesToHexString (reachedBuildIds oneBuildId) = ['a', 'b'] := by
  have hps : ∀ p ∈ oneBuildId, p.type = ptNote → p.align.isPowerOfTwo ∧ p.bytes.length < 2 ^ 32 := by
    intro p hp _
    simp only [oneBuildId, List.mem_singleton] at hp
    subst hp
    exact ⟨⟨2, rfl⟩, by decide⟩
  exact ⟨bytesToHexString_spec, hps,
    (getBuildId_reads_within_notes bytesToHexString bytesToHexString_spec oneBuildId).2 hps, by decide⟩

/-- Two GNU build-id notes, the first with an empty descriptor, the second `0xab`. -/
def twoBuildIds : List Phdr :=
  [⟨ptNote, 4, [4, 0, 0, 0, 0, 0, 0, 0, 3, 0, 0, 0, 71, 78, 85, 0,
    4, 0, 0, 0, 1, 0, 0, 0, 3, 0, 0, 0, 71, 78, 85, 0, 171, 0, 0, 0]⟩]

/-- A repeated build id goes unnoticed after an empty descriptor: the walk reaches two
build-id notes, and the hex of the second comes back instead of `""`. -/
theorem getBuildId_repeat_after_empty_descriptor :
    reachedBuildIds twoBuildIds = [[], [171]] ∧ getBuildId bytesToHexString twoBuildIds = some ['a', 'b'] := by
  decide

end TCMalloc.Internal.BuildId
