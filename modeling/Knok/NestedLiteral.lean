import Mathlib

/-!
# Nested list literals

A nested list literal is a scalar text, or a bracketed list of nested literals
separated by commas.  Its shape is inferred from its nesting: a scalar has no
axes, a list has as many entries as it has elements and then the axes of the
first, which the others must share; an empty list has no further axes.

### Design decisions

* **Fuel.**  The parser is a recursive descent whose calls are bounded by an
  argument; the length of the text is enough (`Parses`).
* **Parsing a part.**  `Parses` is about a text in front of anything that does not
  continue a scalar, so that the parts of a literal can be put together.
-/

namespace NestedLiteral

/-- Characters of a scalar text. -/
def isScalarChar (c : Char) : Bool := c != '[' && c != ']' && c != ',' && c != ' '

def skipBlanks (text : List Char) : List Char := text.dropWhile (· == ' ')

mutual

/-- One element: its shape, its values in order, and what follows it. -/
def parseElement : ℕ → List Char → Option ((List ℕ × List String) × List Char)
  | 0, _ => none
  | fuel + 1, text =>
      match skipBlanks text with
      | '[' :: rest =>
          match skipBlanks rest with
          | ']' :: rest => some (([0], []), rest)
          | rest =>
              (parseElement fuel rest).bind fun ((dims, values), rest) =>
                parseElements fuel dims 1 values rest
      | text =>
          let word := text.takeWhile isScalarChar
          if word.isEmpty then none
          else some (([], [String.ofList word]), text.dropWhile isScalarChar)

/-- The elements of a list after the first ones, whose shape, number and values
are given. -/
def parseElements : ℕ → List ℕ → ℕ → List String → List Char →
    Option ((List ℕ × List String) × List Char)
  | 0, _, _, _, _ => none
  | fuel + 1, dims, size, values, text =>
      match skipBlanks text with
      | ']' :: rest => some ((size :: dims, values), rest)
      | ',' :: rest =>
          (parseElement fuel rest).bind fun ((dims', values'), rest) =>
            if dims' = dims then parseElements fuel dims (size + 1) (values ++ values') rest
            else none
      | _ => none

end

/-- The shape and the values of a literal. -/
def parse (text : String) : Option (List ℕ × List String) :=
  match parseElement (text.toList.length + 1) text.toList with
  | some (result, []) => some result
  | _ => none

/-- The text of a scalar. -/
def IsScalarText (text : String) : Prop := text ≠ "" ∧ ∀ c ∈ text.toList, isScalarChar c = true

/-- What follows a literal does not continue a scalar. -/
def Ends (rest : List Char) : Prop := ∀ c ∈ rest.head?, isScalarChar c = false

/-- The text is an element of the shape with the values. -/
def Parses (text : List Char) (dims : List ℕ) (values : List String) : Prop :=
  ∀ (fuel : ℕ) (rest : List Char), text.length ≤ fuel → Ends rest →
    parseElement fuel (text ++ rest) = some ((dims, values), rest)

theorem parse_eq_some {text : String} {dims : List ℕ} {values : List String}
    (h : Parses text.toList dims values) : parse text = some (dims, values) := by
  have hall := h (text.toList.length + 1) [] (Nat.le_succ _) (by simp [Ends])
  rw [List.append_nil] at hall
  rw [parse, hall]

theorem skipBlanks_scalar {word rest : List Char} (hne : word ≠ [])
    (hword : ∀ c ∈ word, isScalarChar c = true) : skipBlanks (word ++ rest) = word ++ rest := by
  obtain ⟨c, word, rfl⟩ := List.exists_cons_of_ne_nil hne
  have hc : c ≠ ' ' := by
    rintro rfl
    exact absurd (hword ' ' List.mem_cons_self) (by decide)
  rw [List.cons_append, skipBlanks, List.dropWhile_cons_of_neg (by simpa using hc)]

/-- A scalar. -/
theorem parses_scalar {text : String} (h : IsScalarText text) : Parses text.toList [] [text] := by
  obtain ⟨hne, hchars⟩ := h
  have hnil : text.toList ≠ [] := fun h => hne (String.toList_eq_nil_iff.mp h)
  intro fuel rest hfuel hrest
  obtain ⟨fuel, rfl⟩ : ∃ fuel', fuel = fuel' + 1 := by
    have := List.length_pos_of_ne_nil hnil
    exact ⟨fuel - 1, by omega⟩
  have htake : (text.toList ++ rest).takeWhile isScalarChar = text.toList := by
    rw [List.takeWhile_append_of_pos hchars]
    cases rest with
    | nil => simp
    | cons c rest => simp [hrest c (by simp)]
  have hdrop : (text.toList ++ rest).dropWhile isScalarChar = rest := by
    rw [List.dropWhile_append_of_pos hchars]
    cases rest with
    | nil => rfl
    | cons c rest => simp [hrest c (by simp)]
  rw [parseElement, skipBlanks_scalar hnil hchars]
  split
  · rename_i rest' heq
    obtain ⟨c, word, hword⟩ := List.exists_cons_of_ne_nil hnil
    have hc := hchars c (by rw [hword]; exact List.mem_cons_self)
    rw [hword, List.cons_append] at heq
    rw [(List.cons.inj heq).1] at hc
    exact absurd hc (by decide)
  · rw [htake, hdrop]
    simp [hnil]

theorem parseElement_blank (fuel : ℕ) (text : List Char) :
    parseElement fuel (' ' :: text) = parseElement fuel text := by
  cases fuel with
  | zero => rfl
  | succ fuel =>
      have hskip : skipBlanks (' ' :: text) = skipBlanks text := rfl
      rw [parseElement, parseElement, hskip]

/-- The elements after the first, each behind a separator. -/
def printRest (items : List (List Char × List String)) : List Char :=
  items.flatMap fun item => ',' :: ' ' :: item.1

theorem ends_printRest (items : List (List Char × List String)) (rest : List Char) :
    Ends (printRest items ++ ']' :: rest) := by
  cases items with
  | nil =>
      intro c hc
      obtain rfl : ']' = c := by simpa [printRest] using hc
      decide
  | cons item items =>
      intro c hc
      obtain rfl : ',' = c := by simpa [printRest] using hc
      decide

/-- **The rest of a list**: every element adds one to the size and its values to
the values. -/
theorem parseElements_printRest {dims : List ℕ} {items : List (List Char × List String)}
    (hitems : ∀ item ∈ items, Parses item.1 dims item.2) :
    ∀ (fuel size : ℕ) (values : List String) (rest : List Char),
      (printRest items).length < fuel →
      parseElements fuel dims size values (printRest items ++ ']' :: rest) =
        some (((size + items.length) :: dims, values ++ items.flatMap (·.2)), rest) := by
  induction items with
  | nil =>
      intro fuel size values rest hfuel
      obtain ⟨fuel, rfl⟩ : ∃ fuel', fuel = fuel' + 1 := ⟨fuel - 1, by omega⟩
      simp [parseElements, printRest, skipBlanks]
  | cons item items ih =>
      intro fuel size values rest hfuel
      obtain ⟨fuel, rfl⟩ : ∃ fuel', fuel = fuel' + 1 := ⟨fuel - 1, by omega⟩
      have hsplit : printRest (item :: items) = ',' :: ' ' :: (item.1 ++ printRest items) := rfl
      rw [hsplit] at hfuel ⊢
      simp only [List.length_cons, List.length_append] at hfuel
      have hfirst := hitems item List.mem_cons_self fuel (printRest items ++ ']' :: rest)
        (by omega) (ends_printRest items rest)
      have hothers := ih (fun other hother => hitems other (List.mem_cons_of_mem _ hother)) fuel
        (size + 1) (values ++ item.2) rest (by omega)
      have hskip : ∀ text, skipBlanks (',' :: text) = ',' :: text := fun _ => rfl
      rw [List.cons_append, List.cons_append, List.append_assoc, parseElements, hskip]
      simp only [parseElement_blank, hfirst, Option.bind_some, if_true, hothers]
      simp only [List.length_cons, List.flatMap_cons, List.append_assoc, Nat.add_assoc,
        Nat.add_comm 1]

/-- After an opening bracket. -/
theorem parseElement_open (fuel : ℕ) (text : List Char) :
    parseElement (fuel + 1) ('[' :: text) =
      match skipBlanks text with
      | ']' :: rest => some (([0], []), rest)
      | rest =>
          (parseElement fuel rest).bind fun ((dims, values), rest) =>
            parseElements fuel dims 1 values rest := by
  rw [parseElement]
  rfl

/-- A list without elements. -/
theorem parses_empty : Parses ['[', ']'] [0] [] := by
  intro fuel rest hfuel _
  obtain ⟨fuel, rfl⟩ : ∃ fuel', fuel = fuel' + 1 := ⟨fuel - 1, by simp at hfuel; omega⟩
  exact parseElement_open fuel (']' :: rest)

/-- **A list of elements of one shape.** -/
theorem parses_list {dims : List ℕ} {first : List Char × List String}
    {items : List (List Char × List String)} (hfirst : Parses first.1 dims first.2)
    (hopen : first.1.head? ≠ some ']' ∧ first.1.head? ≠ some ' ' ∧ first.1 ≠ [])
    (hitems : ∀ item ∈ items, Parses item.1 dims item.2) :
    Parses ('[' :: first.1 ++ printRest items ++ [']']) ((items.length + 1) :: dims)
      (first.2 ++ items.flatMap (·.2)) := by
  intro fuel rest hfuel hrest
  simp only [List.length_append, List.length_cons, List.length_nil] at hfuel
  obtain ⟨fuel, rfl⟩ : ∃ fuel', fuel = fuel' + 1 := ⟨fuel - 1, by omega⟩
  have hhead := hfirst fuel (printRest items ++ ']' :: rest) (by omega) (ends_printRest items rest)
  have htail := parseElements_printRest hitems fuel 1 first.2 rest (by omega)
  have htext : '[' :: first.1 ++ printRest items ++ [']'] ++ rest =
      '[' :: (first.1 ++ (printRest items ++ ']' :: rest)) := by simp
  obtain ⟨hclose, hblank, hne⟩ := hopen
  obtain ⟨c, word, hword⟩ := List.exists_cons_of_ne_nil hne
  rw [hword, List.head?_cons] at hclose hblank
  have hnone : skipBlanks (first.1 ++ (printRest items ++ ']' :: rest)) =
      first.1 ++ (printRest items ++ ']' :: rest) := by
    have hc : c ≠ ' ' := fun h => hblank (congrArg some h)
    rw [hword, List.cons_append, skipBlanks, List.dropWhile_cons_of_neg (by simpa using hc)]
  rw [htext, parseElement_open, hnone]
  split
  · rename_i heq
    rw [hword, List.cons_append] at heq
    exact absurd (congrArg some (List.cons.inj heq).1) hclose
  · rw [hhead, Option.bind_some]
    dsimp only
    rw [htail, Nat.add_comm 1]

end NestedLiteral
