import Mathlib.Algebra.Ring.Nat
import Mathlib.Data.List.Basic
import Mathlib.Data.List.TakeWhile

/-!
# Reading lines and decimal numbers

A buffered reader takes a text in pieces: to the end of a line, the newline included, or as many
characters as its buffer holds.  A number is scanned by skipping white space, and taking a sign and
the digits that follow.

* `pieces_flatten` — lines that fit the buffer are the pieces of their text;
* `scan_print` — a number that was printed is scanned back, up to what is no digit.
-/

namespace TetraPhy.TextReader

/-- The pieces of a text for a buffer of `cap` characters, of which `room` are free. -/
def pieces (cap : ℕ) : ℕ → List Char → List (List Char)
  | _, [] => []
  | room, c :: s =>
      if c = '\n' ∨ room ≤ 1 then [c] :: pieces cap cap s
      else match pieces cap (room - 1) s with
        | [] => [[c]]
        | p :: ps => (c :: p) :: ps

theorem pieces_append {cap room : ℕ} {l : List Char} (hl : '\n' ∉ l) (hlen : l.length < room)
    (s : List Char) :
    pieces cap room (l ++ '\n' :: s) = (l ++ ['\n']) :: pieces cap cap s := by
  induction l generalizing room with
  | nil => rw [List.nil_append, pieces, if_pos (.inl rfl), List.nil_append]
  | cons c l ih =>
      rw [List.mem_cons, not_or] at hl
      rw [List.length_cons] at hlen
      have hc : ¬(c = '\n' ∨ room ≤ 1) := not_or.2 ⟨fun h ↦ hl.1 h.symm, by omega⟩
      rw [List.cons_append, pieces, if_neg hc, ih hl.2 (by omega)]
      rfl

/-- A line that fits a buffer of `cap` characters: its only newline is its last character. -/
def IsLine (cap : ℕ) (l : List Char) : Prop :=
  l.getLast? = some '\n' ∧ '\n' ∉ l.dropLast ∧ l.length ≤ cap

instance (cap : ℕ) (l : List Char) : Decidable (IsLine cap l) :=
  inferInstanceAs (Decidable (_ ∧ _ ∧ _))

theorem isLine_append {cap : ℕ} {b : List Char} (hb : '\n' ∉ b) (hlen : b.length < cap) :
    IsLine cap (b ++ ['\n']) := by
  refine ⟨List.getLast?_concat, ?_, ?_⟩
  · rwa [List.dropLast_concat]
  · rwa [List.length_append]

/-- **A text of lines is taken in line by line.** -/
theorem pieces_flatten {cap : ℕ} {ls : List (List Char)} (h : ∀ l ∈ ls, IsLine cap l) :
    pieces cap cap ls.flatten = ls := by
  induction ls with
  | nil => rfl
  | cons l ls ih =>
      obtain ⟨⟨hlast, hb, hfits⟩, hls⟩ := List.forall_mem_cons.1 h
      have hl : l.dropLast ++ ['\n'] = l := List.dropLast_append_getLast? _ hlast
      have hlen : l.dropLast.length < cap := by
        rw [← hl, List.length_append] at hfits
        exact hfits
      rw [List.flatten_cons, ← hl, List.append_assoc, List.singleton_append,
        pieces_append hb hlen, ih hls]

/-! ## Numbers -/

/-- White space of the C locale. -/
def isSpace (c : Char) : Bool := c == ' ' || (9 ≤ c.toNat && c.toNat ≤ 13)

/-- Take a sign off. -/
def sign : List Char → Bool × List Char
  | '-' :: s => (true, s)
  | '+' :: s => (false, s)
  | s => (false, s)

/-- Scan a number: whether it is negated, its magnitude, and what follows. -/
def scan (s : List Char) : Option (Bool × ℕ × List Char) :=
  let (neg, s) := sign (s.dropWhile isSpace)
  match s.takeWhile Char.isDigit with
  | [] => none
  | ds => some (neg, Nat.ofDigitChars 10 ds 0, s.dropWhile Char.isDigit)

/-- The digits of a number. -/
def print (n : ℕ) : List Char := Nat.toDigits 10 n

theorem print_ne_nil (n : ℕ) : print n ≠ [] := Nat.toDigits_ne_nil

theorem isDigit_of_mem_print {n : ℕ} {c : Char} (h : c ∈ print n) : c.isDigit :=
  Nat.isDigit_of_mem_toDigits (by decide) (by decide) h

theorem length_print_le {n k : ℕ} (hk : 0 < k) (h : n < 10 ^ k) : (print n).length ≤ k :=
  (Nat.length_toDigits_le_iff (by decide) hk).2 h

/-- A digit is no white space. -/
theorem isSpace_of_isDigit {c : Char} (h : c.isDigit) : isSpace c = false := by
  have hlow : 48 ≤ c.toNat := (Char.isDigit_iff_toNat.1 h).1
  have hblank : c ≠ ' ' := by
    rintro rfl
    exact absurd h (by decide)
  rw [isSpace, beq_false_of_ne hblank, Bool.false_or, decide_eq_false (by omega : ¬c.toNat ≤ 13),
    Bool.and_false]

/-- A digit is no sign. -/
theorem sign_of_isDigit {c : Char} (h : c.isDigit) (s : List Char) :
    sign (c :: s) = (false, c :: s) := by
  unfold sign
  split
  · next heq =>
    obtain ⟨rfl, -⟩ := List.cons.inj heq
    exact absurd h (by decide)
  · next heq =>
    obtain ⟨rfl, -⟩ := List.cons.inj heq
    exact absurd h (by decide)
  · rfl

/-- **A number that was printed is scanned back.** -/
theorem scan_print {sp : List Char} (hsp : ∀ c ∈ sp, isSpace c) (n : ℕ) {s : List Char}
    (hs : ∀ c ∈ s.head?, c.isDigit = false) :
    scan (sp ++ print n ++ s) = some (false, n, s) := by
  obtain ⟨d, ds, hd⟩ := List.exists_cons_of_ne_nil (print_ne_nil n)
  have hdigit : d.isDigit := isDigit_of_mem_print (hd ▸ List.mem_cons_self)
  have hskip : (sp ++ print n ++ s).dropWhile isSpace = print n ++ s := by
    rw [List.append_assoc, List.dropWhile_append_of_pos hsp, hd, List.cons_append,
      List.dropWhile_cons_of_neg (by rw [isSpace_of_isDigit hdigit]; exact Bool.false_ne_true)]
  have hsign : sign (print n ++ s) = (false, print n ++ s) := by
    rw [hd]
    exact sign_of_isDigit hdigit _
  have hstop : s.takeWhile Char.isDigit = [] ∧ s.dropWhile Char.isDigit = s := by
    cases s with
    | nil => exact ⟨rfl, rfl⟩
    | cons c s =>
        have hc : ¬c.isDigit = true := by rw [hs c rfl]; exact Bool.false_ne_true
        exact ⟨List.takeWhile_cons_of_neg hc, List.dropWhile_cons_of_neg hc⟩
  have htake : (print n ++ s).takeWhile Char.isDigit = print n := by
    rw [List.takeWhile_append_of_pos fun c hc ↦ isDigit_of_mem_print hc, hstop.1, List.append_nil]
  have hdrop : (print n ++ s).dropWhile Char.isDigit = s := by
    rw [List.dropWhile_append_of_pos fun c hc ↦ isDigit_of_mem_print hc, hstop.2]
  simp only [scan, hskip, hsign, htake, hdrop]
  have hvalue : Nat.ofDigitChars 10 (print n) 0 = n := Nat.ofDigitChars_ten_toDigits
  rw [hd] at hvalue ⊢
  simp only [hvalue]

end TetraPhy.TextReader
