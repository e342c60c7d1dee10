import Mathlib

/-!
`Printer` of `internal/logging.h`: printing into a caller's buffer of `length`
bytes.  `buf_` moves along the buffer, `left_` counts the bytes left (the `'\0'`
included) and `required_` the bytes every call so far produced.  Memory is a
function of the offset from the buffer's start, so that a write past `length`
is visible.

`printf` hands the buffer to `absl::SNPrintF`, which writes at most `left_ - 1`
bytes of the formatted text and a `'\0'` after them; `Append` copies its pieces
with `memcpy` and writes no `'\0'`.  The formatted text of `printf` and the pieces
of `Append` are the calls' arguments.  `absl::SNPrintF` is Abseil's, not part of these
sources: the calls take it as a function `snPrintF`, and the proofs use only what its
documentation says, `SNPrintFSpec`; `snprintf` is one function that meets it.
-/

set_option autoImplicit false
set_option relaxedAutoImplicit false

namespace TCMalloc.Internal

/-- `'\0'`. -/
def nul : Char := Char.ofNat 0

/-- `Printer`: the memory from the buffer's start on, the offset `buf_` has reached,
`left_` and `required_`. -/
structure Printer where
  mem : Nat → Char
  pos : Nat
  left : Nat
  required : Nat

namespace Printer

/-- The bytes `bytes` written at offsets `p, p + 1, …`. -/
def writeAt (mem : Nat → Char) (p : Nat) (bytes : List Char) : Nat → Char :=
  fun k => if p ≤ k ∧ k < p + bytes.length then bytes.getD (k - p) nul else mem k

/-- `buf[0, m)`. -/
def readBuf (mem : Nat → Char) (m : Nat) : List Char := (List.range m).map mem

/-- `Printer(buf, length)`: `TC_ASSERT_GT(length, 0u)`, then `buf[0] = '\0'`. -/
def init (mem : Nat → Char) (length : Nat) : Option Printer :=
  if 0 < length then some ⟨Function.update mem 0 nul, 0, length, 0⟩ else none

/-- `absl::SNPrintF(buf_, left_, …)` of the text `out` as its documentation describes it:
its first `left_ - 1` bytes and a `'\0'`, nothing when `left_` is `0`. -/
def snprintf (mem : Nat → Char) (pos left : Nat) (out : List Char) : Nat → Char :=
  if left = 0 then mem else writeAt mem pos (out.take (left - 1) ++ [nul])

/-- What `Printer` relies on of `absl::SNPrintF(buf_, left_, …)` of a text, as documented:
it writes nothing into a buffer of no bytes, and otherwise the text truncated to
`left_ - 1` bytes and a `'\0'` after it, and no other byte. -/
structure SNPrintFSpec (snPrintF : (Nat → Char) → Nat → Nat → List Char → Nat → Char) : Prop where
  zero : ∀ mem pos out, snPrintF mem pos 0 out = mem
  truncates : ∀ mem pos left out, left ≠ 0 →
    snPrintF mem pos left out = writeAt mem pos (out.take (left - 1) ++ [nul])

/-- `printf(format, args...)`, where `SNPrintF` formats the text `out`, or fails (`none`,
a negative return). -/
def printf (snPrintF : (Nat → Char) → Nat → Nat → List Char → Nat → Char) (s : Printer)
    (out : Option (List Char)) : Printer :=
  match out with
  | none => { s with left := 0 }
  | some out =>
    let r := out.length
    let s := { s with mem := snPrintF s.mem s.pos s.left out, required := s.required + r }
    if r > s.left then { s with left := 0 } else { s with left := s.left - r, pos := s.pos + r }

/-- The copying loop of `AppendPieces`: each non-empty piece `memcpy`d at `buf_`, which
moves past it. -/
def copyPieces : (Nat → Char) × Nat → List (List Char) → (Nat → Char) × Nat
  | acc, [] => acc
  | (mem, pos), piece :: pieces =>
    if piece.length = 0 then copyPieces (mem, pos) pieces
    else copyPieces (writeAt mem pos piece, pos + piece.length) pieces

/-- `AppendPieces(pieces)`, the body of `Append(args...)` once each argument is the
`string_view` of its `AlphaNum`: all pieces or, when they do not fit in `left_`,
none. -/
def appendPieces (s : Printer) (pieces : List (List Char)) : Printer :=
  let total := (pieces.map List.length).sum
  let s := { s with required := s.required + total }
  if s.left < total then { s with left := 0 }
  else
    let (mem, pos) := copyPieces (s.mem, s.pos) pieces
    { s with mem, pos, left := s.left - total }

/-- The calls a caller makes: `printf` of a format whose text is `out` (as `SNPrintF`
formats it without failing), and `Append` of pieces. -/
inductive Call where
  | printf (out : List Char)
  | append (pieces : List (List Char))

/-- What a call prints. -/
def Call.output : Call → List Char
  | .printf out => out
  | .append pieces => pieces.flatten

/-- One call. -/
def step (snPrintF : (Nat → Char) → Nat → Nat → List Char → Nat → Char) (s : Printer) : Call → Printer
  | .printf out => s.printf snPrintF (some out)
  | .append pieces => s.appendPieces pieces

/-- The calls one after the other. -/
def run (snPrintF : (Nat → Char) → Nat → Nat → List Char → Nat → Char) (s : Printer) (calls : List Call) :
    Printer :=
  calls.foldl (step snPrintF) s

/-- Everything the calls print. -/
def output (calls : List Call) : List Char := calls.flatMap Call.output

/-! ### Writes and reads -/

variable {mem mem' : Nat → Char} {p k m : Nat} {bytes : List Char}

theorem writeAt_of_lt (hk : k < p) : writeAt mem p bytes k = mem k := by
  simp [writeAt, Nat.not_le.mpr hk]

theorem writeAt_of_le (hk : p + bytes.length ≤ k) : writeAt mem p bytes k = mem k := by
  simp [writeAt, Nat.not_lt.mpr hk]

@[simp] theorem writeAt_nil : writeAt mem p [] = mem := by
  funext k
  unfold writeAt
  rw [if_neg (by simp only [List.length_nil]; omega)]

theorem writeAt_append (a b : List Char) : writeAt (writeAt mem p a) (p + a.length) b = writeAt mem p (a ++ b) := by
  funext k
  unfold writeAt
  simp only [List.length_append, List.getD_eq_getElem?_getD]
  by_cases hlo : p ≤ k
  · by_cases hk : k < p + a.length
    · rw [if_neg (by omega), if_pos ⟨hlo, hk⟩, if_pos ⟨hlo, by omega⟩, List.getElem?_append_left (by omega)]
    · by_cases hk' : k < p + a.length + b.length
      · rw [if_pos ⟨by omega, hk'⟩, if_pos ⟨hlo, by omega⟩, List.getElem?_append_right (by omega),
          show k - p - a.length = k - (p + a.length) by omega]
      · rw [if_neg (by omega), if_neg (by omega), if_neg (by omega)]
  · rw [if_neg (by omega), if_neg (by omega), if_neg (by omega)]

theorem readBuf_succ (mem : Nat → Char) (m : Nat) : readBuf mem (m + 1) = readBuf mem m ++ [mem m] := by
  simp [readBuf, List.range_succ]

@[simp] theorem length_readBuf (mem : Nat → Char) (m : Nat) : (readBuf mem m).length = m := by
  simp [readBuf]

theorem readBuf_congr (h : ∀ k < m, mem k = mem' k) : readBuf mem m = readBuf mem' m := by
  unfold readBuf
  exact List.map_congr_left fun k hk => h k (List.mem_range.mp hk)

theorem readBuf_writeAt {n : Nat} (hn : n ≤ bytes.length) :
    readBuf (writeAt mem p bytes) (p + n) = readBuf mem p ++ bytes.take n := by
  induction n with
  | zero =>
    rw [Nat.add_zero, List.take_zero, List.append_nil]
    exact readBuf_congr fun k hk => writeAt_of_lt hk
  | succ n ih =>
    rw [← Nat.add_assoc, readBuf_succ, ih (by omega), List.take_add_one, List.append_assoc,
      List.getElem?_eq_getElem (by omega), Option.toList_some]
    unfold writeAt
    rw [if_pos ⟨by omega, by omega⟩, List.getD_eq_getElem?_getD, Nat.add_sub_cancel_left,
      List.getElem?_eq_getElem (by omega), Option.getD_some]

theorem copyPieces_eq (pieces : List (List Char)) :
    ∀ mem p, copyPieces (mem, p) pieces = (writeAt mem p pieces.flatten, p + (pieces.map List.length).sum) := by
  induction pieces with
  | nil => intro mem p; simp [copyPieces]
  | cons piece pieces ih =>
    intro mem p
    unfold copyPieces
    split
    · rename_i hnil
      rw [ih, List.length_eq_zero_iff.mp hnil]
      simp
    · rw [ih, writeAt_append, List.flatten_cons]
      simp [Nat.add_assoc]

/-! ### What every call keeps -/

/-- After calls that printed `out`: nothing at or past `length` was written,
`required_` is the length of `out`, while bytes are left the buffer holds `out` up to
`buf_` and `buf_ + left_` is the buffer's end, and once none are left the output has
reached `length`. -/
structure Inv (mem₀ : Nat → Char) (length : Nat) (s : Printer) (out : List Char) : Prop where
  frame : ∀ k, length ≤ k → s.mem k = mem₀ k
  required : s.required = out.length
  fits : 0 < s.left → s.pos = s.required ∧ s.pos + s.left = length ∧ readBuf s.mem s.pos = out
  full : s.left = 0 → length ≤ s.required

/-- The buffer is terminated: a `'\0'` inside it after a prefix of the output, right
after all of it while it fits. -/
def Terminated (length : Nat) (s : Printer) (out : List Char) : Prop :=
  ∃ m < length, s.mem m = nul ∧ readBuf s.mem m <+: out ∧ (s.required < length → m = s.required)

variable {mem₀ : Nat → Char} {length : Nat} {s : Printer} {out : List Char}
  {snPrintF : (Nat → Char) → Nat → Nat → List Char → Nat → Char}

theorem init_eq (hlen : 0 < length) : init mem₀ length = some ⟨Function.update mem₀ 0 nul, 0, length, 0⟩ :=
  if_pos hlen

theorem inv_init (hlen : 0 < length) : Inv mem₀ length ⟨Function.update mem₀ 0 nul, 0, length, 0⟩ [] where
  frame := fun k hk => Function.update_of_ne (by omega) _ _
  required := rfl
  fits := fun _ => ⟨rfl, Nat.zero_add _, rfl⟩
  full := fun h => absurd h (by dsimp only; omega)

theorem terminated_init (hlen : 0 < length) : Terminated length ⟨Function.update mem₀ 0 nul, 0, length, 0⟩ [] :=
  ⟨0, hlen, Function.update_self 0 nul mem₀, List.nil_prefix, fun _ => rfl⟩

theorem printf_some (s : Printer) (o : List Char) :
    s.printf snPrintF (some o) =
      if o.length > s.left then
        { s with mem := snPrintF s.mem s.pos s.left o, required := s.required + o.length, left := 0 }
      else
        { s with mem := snPrintF s.mem s.pos s.left o, required := s.required + o.length,
                 left := s.left - o.length, pos := s.pos + o.length } := rfl

theorem snprintf_spec : SNPrintFSpec snprintf := ⟨fun _ _ _ => rfl, fun _ _ _ _ h => if_neg h⟩

theorem snprintf_bytes_length {left : Nat} (hleft : 0 < left) (o : List Char) :
    (o.take (left - 1) ++ [nul]).length = min o.length (left - 1) + 1 ∧ min o.length (left - 1) + 1 ≤ left := by
  simp only [List.length_append, List.length_take, List.length_singleton]
  omega

theorem Inv.printf (hsn : SNPrintFSpec snPrintF) (hs : Inv mem₀ length s out) (o : List Char) :
    Inv mem₀ length (s.printf snPrintF (some o)) (out ++ o) := by
  rw [printf_some]
  by_cases hleft : s.left = 0
  · -- Nothing left: `SNPrintF` writes nothing and `left_` stays `0`.
    have hfull := hs.full hleft
    rw [hleft, hsn.zero]
    split <;> exact ⟨hs.frame, by simp [hs.required], fun h => by dsimp only at h; omega,
      fun _ => by dsimp only; omega⟩
  · obtain ⟨hpos, hend, hbuf⟩ := hs.fits (Nat.pos_of_ne_zero hleft)
    obtain ⟨hlenb, hle⟩ := snprintf_bytes_length (Nat.pos_of_ne_zero hleft) o
    have hframe : ∀ k, length ≤ k → writeAt s.mem s.pos (o.take (s.left - 1) ++ [nul]) k = mem₀ k :=
      fun k hk => (writeAt_of_le (by omega)).trans (hs.frame k hk)
    rw [hsn.truncates _ _ _ _ hleft]
    split
    · exact ⟨hframe, by simp [hs.required], fun h => by dsimp only at h; omega,
        fun _ => by dsimp only; omega⟩
    · rename_i hr
      refine ⟨hframe, by simp [hs.required], fun h => ?_, fun h => by dsimp only at h ⊢; omega⟩
      dsimp only at h ⊢
      refine ⟨by omega, by omega, ?_⟩
      rw [readBuf_writeAt (by omega), hbuf, List.take_append_of_le_length (by simp only [List.length_take]; omega),
        List.take_take, Nat.min_eq_left (by omega), List.take_of_length_le (le_refl _)]

theorem Terminated.printf (hsn : SNPrintFSpec snPrintF) (hs : Inv mem₀ length s out)
    (ht : Terminated length s out) (o : List Char) :
    Terminated length (s.printf snPrintF (some o)) (out ++ o) := by
  rw [printf_some]
  by_cases hleft : s.left = 0
  · -- Nothing is written: the old terminator stays, and the output is past `length`.
    obtain ⟨m, hm, hnul, hpre, -⟩ := ht
    have hfull := hs.full hleft
    rw [hleft, hsn.zero]
    split <;> exact ⟨m, hm, hnul, hpre.trans (List.prefix_append out o), fun h => by dsimp only at h; omega⟩
  · -- The new terminator sits after the bytes `SNPrintF` copied.
    obtain ⟨hpos, hend, hbuf⟩ := hs.fits (Nat.pos_of_ne_zero hleft)
    obtain ⟨hlenb, hle⟩ := snprintf_bytes_length (Nat.pos_of_ne_zero hleft) o
    have hnul : writeAt s.mem s.pos (o.take (s.left - 1) ++ [nul]) (s.pos + min o.length (s.left - 1)) = nul := by
      unfold writeAt
      rw [if_pos ⟨by omega, by omega⟩, Nat.add_sub_cancel_left, List.getD_eq_getElem?_getD,
        List.getElem?_append_right (by simp only [List.length_take]; omega), List.length_take,
        Nat.min_comm (s.left - 1) o.length, Nat.sub_self, List.getElem?_cons_zero, Option.getD_some]
    have hpre : readBuf (writeAt s.mem s.pos (o.take (s.left - 1) ++ [nul])) (s.pos + min o.length (s.left - 1)) <+:
        out ++ o := by
      rw [readBuf_writeAt (by omega), hbuf, List.take_append_of_le_length (by simp only [List.length_take]; omega), List.take_take]
      exact List.prefix_append_right_inj out |>.mpr (List.take_prefix _ _)
    rw [hsn.truncates _ _ _ _ hleft]
    split <;> refine ⟨s.pos + min o.length (s.left - 1), by omega, hnul, hpre, fun h => ?_⟩ <;>
      dsimp only at h ⊢ <;> omega

theorem appendPieces_eq (s : Printer) (pieces : List (List Char)) :
    s.appendPieces pieces =
      if s.left < pieces.flatten.length then { s with required := s.required + pieces.flatten.length, left := 0 }
      else
        { s with mem := writeAt s.mem s.pos pieces.flatten, pos := s.pos + pieces.flatten.length,
                 left := s.left - pieces.flatten.length, required := s.required + pieces.flatten.length } := by
  simp only [appendPieces, copyPieces_eq, ← List.length_flatten]

theorem Inv.appendPieces (hs : Inv mem₀ length s out) (pieces : List (List Char)) :
    Inv mem₀ length (s.appendPieces pieces) (out ++ pieces.flatten) := by
  rw [appendPieces_eq]
  split
  · -- The pieces do not fit: nothing is copied and `left_` drops to `0`.
    rename_i hfit
    refine ⟨hs.frame, by simp [hs.required], fun h => by dsimp only at h; omega, fun _ => ?_⟩
    dsimp only
    by_cases hleft : s.left = 0
    · have := hs.full hleft
      omega
    · have := hs.fits (Nat.pos_of_ne_zero hleft)
      omega
  · rename_i hfit
    by_cases hleft : s.left = 0
    · -- Nothing left and the pieces fit: they are all empty.
      have hnil : pieces.flatten = [] := List.eq_nil_of_length_eq_zero (by omega)
      have hfull := hs.full hleft
      rw [hnil, writeAt_nil]
      exact ⟨hs.frame, by simp [hs.required], fun h => by dsimp only at h; omega, fun _ => by dsimp only; omega⟩
    · obtain ⟨hpos, hend, hbuf⟩ := hs.fits (Nat.pos_of_ne_zero hleft)
      refine ⟨fun k hk => (writeAt_of_le (by omega)).trans (hs.frame k hk), by simp [hs.required],
        fun h => ?_, fun h => by dsimp only at h ⊢; omega⟩
      dsimp only at h ⊢
      refine ⟨by omega, by omega, ?_⟩
      rw [readBuf_writeAt (le_refl _), hbuf, List.take_length]

theorem Inv.step (hsn : SNPrintFSpec snPrintF) (hs : Inv mem₀ length s out) (c : Call) :
    Inv mem₀ length (s.step snPrintF c) (out ++ c.output) := by
  cases c with
  | printf o => exact hs.printf hsn o
  | append pieces => exact hs.appendPieces pieces

theorem Inv.run (hsn : SNPrintFSpec snPrintF) (hs : Inv mem₀ length s out) (calls : List Call) :
    Inv mem₀ length (s.run snPrintF calls) (out ++ output calls) := by
  induction calls generalizing s out with
  | nil => simpa [Printer.run, output] using hs
  | cons c calls ih =>
    have hrest := ih (hs.step hsn c)
    simpa [Printer.run, output, List.append_assoc] using hrest

theorem Terminated.run_printf (hsn : SNPrintFSpec snPrintF) (hs : Inv mem₀ length s out)
    (ht : Terminated length s out) (calls : List Call) (hcalls : ∀ c ∈ calls, ∃ o, c = .printf o) :
    Terminated length (s.run snPrintF calls) (out ++ output calls) := by
  induction calls generalizing s out with
  | nil => simpa [Printer.run, output] using ht
  | cons c calls ih =>
    obtain ⟨o, rfl⟩ := hcalls c List.mem_cons_self
    have hrest := ih (hs.printf hsn o) (ht.printf hsn hs o) (fun c' hc' => hcalls c' (List.mem_cons_of_mem _ hc'))
    simpa [Printer.run, output, step, Call.output, List.append_assoc] using hrest

/-- `Printer` from `Printer(buf, length)` with `length > 0`, after any calls: (a) no
byte at or past `length` is written, (b) `SpaceRequired()` is the length of the
output, and while it is below `length` the buffer starts with the whole output.
When every call is a `printf`, (c) a `'\0'` inside the buffer ends a prefix of the
output, and (d) it sits right after the whole output while that fits. -/
theorem printer_output_prefix (snPrintF : (Nat → Char) → Nat → Nat → List Char → Nat → Char)
    (hsn : SNPrintFSpec snPrintF) (mem₀ : Nat → Char) {length : Nat} (hlen : 0 < length) (calls : List Call) :
    ∃ s₀, init mem₀ length = some s₀ ∧
      (∀ k, length ≤ k → (s₀.run snPrintF calls).mem k = mem₀ k) ∧
      (s₀.run snPrintF calls).required = (output calls).length ∧
      ((s₀.run snPrintF calls).required < length → readBuf (s₀.run snPrintF calls).mem (s₀.run snPrintF calls).required = output calls) ∧
      ((∀ c ∈ calls, ∃ o, c = .printf o) →
        ∃ m < length, (s₀.run snPrintF calls).mem m = nul ∧ readBuf (s₀.run snPrintF calls).mem m <+: output calls ∧
          ((s₀.run snPrintF calls).required < length → m = (s₀.run snPrintF calls).required)) := by
  have hinv := (@inv_init mem₀ _ hlen).run hsn calls
  rw [List.nil_append] at hinv
  refine ⟨_, init_eq hlen, hinv.frame, hinv.required, fun hreq => ?_, fun hcalls => ?_⟩
  · -- Below `length`, bytes are still left, so everything printed fits.
    have hleft : 0 < (Printer.run snPrintF ⟨Function.update mem₀ 0 nul, 0, length, 0⟩ calls).left := by
      apply Nat.pos_of_ne_zero
      intro h
      have := hinv.full h
      omega
    obtain ⟨hpos, -, hbuf⟩ := hinv.fits hleft
    rw [← hpos]
    exact hbuf
  · have ht := (@terminated_init mem₀ _ hlen).run_printf hsn (inv_init hlen) calls hcalls
    rw [List.nil_append] at ht
    exact ht

theorem printer_output_prefix_after_two_printfs :
    SNPrintFSpec snprintf ∧ 0 < 4 ∧ ∃ s₀, init (fun _ => 'x') 4 = some s₀ ∧
      (s₀.run snprintf [.printf ['h', 'i'], .printf ['!', '!']]).required = 4 := by
  obtain ⟨s₀, hinit, -, hreq, -⟩ := printer_output_prefix snprintf snprintf_spec (fun _ => 'x') (by decide : 0 < 4)
    [.printf ['h', 'i'], .printf ['!', '!']]
  exact ⟨snprintf_spec, by decide, s₀, hinit, hreq⟩

/-- `Append` writes no `'\0'`: in a zero-filled buffer of two bytes, `Append("ab")`
fits (`SpaceRequired()` is `2`, not below `length`) and leaves no `'\0'` in
`buf[0, 2)`. -/
theorem printer_append_leaves_no_terminator (snPrintF : (Nat → Char) → Nat → Nat → List Char → Nat → Char) :
    ∃ s₀, init (fun _ => nul) 2 = some s₀ ∧ (s₀.run snPrintF [.append [['a', 'b']]]).required = 2 ∧
      ∀ m < 2, (s₀.run snPrintF [.append [['a', 'b']]]).mem m ≠ nul := by
  -- `Append` never calls `SNPrintF`, so the buffer is the same whatever it does
  refine ⟨_, rfl, rfl, fun m hm => ?_⟩
  simp only [run, List.foldl, step]
  interval_cases m <;> decide

end Printer

end TCMalloc.Internal
