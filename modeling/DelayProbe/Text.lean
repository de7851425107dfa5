/-!
# Text — characters in a row, measured in UTF-8 bytes

Paths, symbols, command lines and everything printed are `Text`: the list of their characters.  Limits count bytes
(`Text.byteLength`), so a character weighs as much as its UTF-8 form.  A text is taken apart at its first separator
(`Text.cut`), at the first occurrence of a word (`Text.cutAt`), or at its line end (`Text.stripLineEnd`).
-/
namespace DelayProbe

abbrev Text := List Char

namespace Text

/-- The number of bytes of the UTF-8 form. -/
def byteLength (t : Text) : Nat := t.foldr (fun c n => c.utf8Size + n) 0

def bytes (t : Text) : List UInt8 := t.flatMap String.utf8EncodeChar

/-- What stands before and after the first `sep`; `none` if there is no `sep`. -/
def cut (sep : Char) : Text → Option (Text × Text)
  | [] => none
  | c :: r => if c = sep then some ([], r) else (cut sep r).map fun p => (c :: p.1, p.2)

/-- What stands before and after the first occurrence of `word`; `none` if it does not occur. -/
def cutAt (word : Text) : Text → Option (Text × Text)
  | [] => if word = [] then some ([], []) else none
  | c :: r =>
    if word.isPrefixOf (c :: r) then some ([], (c :: r).drop word.length)
    else (cutAt word r).map fun p => (c :: p.1, p.2)

/-- Without the longest run of `p` at its end. -/
def trimEnd (p : Char → Bool) (t : Text) : Text := (t.reverse.dropWhile p).reverse

def isLineEnd (c : Char) : Bool := c == '\n' || c == '\r'
def isBlank (c : Char) : Bool := c == ' ' || c == '\t'

/-- Without the line feeds and carriage returns at its end, in any number and order. -/
def stripLineEnd (t : Text) : Text := t.trimEnd isLineEnd

theorem byteLength_cons (c : Char) (t : Text) : byteLength (c :: t) = c.utf8Size + byteLength t := rfl

theorem byteLength_append : ∀ a b : Text, byteLength (a ++ b) = byteLength a + byteLength b
  | [], b => (Nat.zero_add _).symm
  | c :: a, b => by rw [List.cons_append, byteLength_cons, byteLength_cons, byteLength_append a b, Nat.add_assoc]

/-- **The two parts and the separator are the whole text, and the first part is free of the separator.** -/
theorem cut_eq_some_iff {sep : Char} : ∀ {t a b : Text}, cut sep t = some (a, b) ↔ t = a ++ sep :: b ∧ sep ∉ a
  | [], a, b => by simp [cut]
  | c :: r, a, b => by
    by_cases h : c = sep
    · subst h
      simp only [cut, if_true, Option.some.injEq, Prod.mk.injEq]
      constructor
      · rintro ⟨rfl, rfl⟩; simp
      · rintro ⟨ht, hn⟩
        cases a with
        | nil => simpa using ht
        | cons x xs => simp at ht; simp [ht.1] at hn
    · simp only [cut, h, if_false, Option.map_eq_some_iff]
      constructor
      · rintro ⟨⟨x, y⟩, hx, he⟩
        obtain ⟨rfl, rfl⟩ := Prod.mk.injEq .. ▸ he
        obtain ⟨rfl, hn⟩ := cut_eq_some_iff.1 hx
        exact ⟨rfl, by simp [hn, Ne.symm h]⟩
      · rintro ⟨ht, hn⟩
        cases a with
        | nil => simp at ht; exact absurd ht.1 h
        | cons x xs =>
          simp only [List.cons_append, List.cons.injEq] at ht
          obtain ⟨rfl, rfl⟩ := ht
          exact ⟨(xs, b), cut_eq_some_iff.2 ⟨rfl, fun hm => hn (List.mem_cons_of_mem _ hm)⟩, rfl⟩

theorem cut_eq_none_iff {sep : Char} : ∀ {t : Text}, cut sep t = none ↔ sep ∉ t
  | [] => by simp [cut]
  | c :: r => by
    by_cases h : c = sep
    · simp [cut, h]
    · simp [cut, h, cut_eq_none_iff (t := r), Ne.symm h]

theorem cut_append {sep : Char} {a : Text} (b : Text) (h : sep ∉ a) : cut sep (a ++ sep :: b) = some (a, b) :=
  cut_eq_some_iff.2 ⟨rfl, h⟩

end Text
end DelayProbe
