/-
`json::parse` on texts that are cut or joined.

The library is not part of the source, so the parser is a parameter, and what
is assumed of it is the structure `JsonText`: blanks around a value do not
matter, and a text goes on behind an object with blanks only.

    parse_cut, parse_more   a beginning of a text, or a text with more behind
                            it, parses only if what is cut off, or added, is blank
    tableParse_laws         a parser that knows finitely many texts
-/
import DogeConnect.Json
import Mathlib.Data.List.DropRight

namespace DogeConnect

/-- The blanks of JSON. -/
def isBlank (c : Char) : Bool := c = ' ' || c = '\t' || c = '\n' || c = '\r'

def Blank (s : Str) : Prop := s.all isBlank = true

instance (s : Str) : Decidable (Blank s) := inferInstanceAs (Decidable (_ = true))

def Json.isObject : Json → Bool
  | .object _ => true
  | _ => false

theorem blank_nil : Blank [] := rfl

@[simp] theorem blank_append {s t : Str} : Blank (s ++ t) ↔ Blank s ∧ Blank t := by
  simp [Blank]

/-- What `json::parse` is relied on for: blanks around a value do not matter,
and of two texts of which one begins the other, and one is an object, the rest
is blank.  (A byte order mark is skipped at the very beginning only, and a NUL
is taken for the end of the input.) -/
structure JsonText (parse : Str → Option Json) : Prop where
  blank : ∀ {w : Str}, Blank w → parse w = none
  blank_left : ∀ {w s : Str} {v : Json}, Blank w → parse (w ++ s) = some v → parse s = some v
  blank_right : ∀ (s : Str) {w : Str}, Blank w → parse (s ++ w) = parse s
  rest_blank : ∀ {s t : Str} {v v' : Json}, parse s = some v → parse (s ++ t) = some v' →
    v.isObject = true ∨ v'.isObject = true → '\x00' ∉ s ++ t → Blank t

section
variable {parse : Str → Option Json}

theorem parse_cut (laws : JsonText parse) {p q : Str} {v : Json} (hv : parse (p ++ q) = some v)
    (hobject : v.isObject = true) (hclean : '\x00' ∉ p ++ q) :
    parse p = if Blank q then some v else none := by
  split
  next hq => rw [← hv, laws.blank_right p hq]
  next hq =>
    cases hp : parse p with
    | none => rfl
    | some v' => exact absurd (laws.rest_blank hp hv (.inr hobject) hclean) hq

theorem parse_more (laws : JsonText parse) {s t : Str} {v : Json} (hv : parse s = some v)
    (hobject : v.isObject = true) (hclean : '\x00' ∉ s ++ t) : parse (s ++ t) = if Blank t then some v else none := by
  split
  next ht => rw [laws.blank_right s ht, hv]
  next ht =>
    cases hst : parse (s ++ t) with
    | none => rfl
    | some v' => exact absurd (laws.rest_blank hv hst (.inl hobject) hclean) ht

end
/-! ## A parser that knows some texts -/

def trimBlanks (s : Str) : Str := (s.dropWhile isBlank).rdropWhile isBlank

/-- A parser that knows some texts. -/
def tableParse (table : List (Str × Json)) (s : Str) : Option Json :=
  (table.find? fun kv => kv.1 = trimBlanks s).map Prod.snd

/-- The texts begin with something and none begins another. -/
structure TextTable (table : List (Str × Json)) : Prop where
  nonempty : ∀ kv ∈ table, kv.1 ≠ []
  prefix_free : ∀ kv ∈ table, ∀ kv' ∈ table, kv.1 <+: kv'.1 → kv.1 = kv'.1

theorem tableParse_some {table : List (Str × Json)} {s : Str} {v : Json}
    (h : tableParse table s = some v) : ∃ kv ∈ table, kv.1 = trimBlanks s := by
  obtain ⟨kv, hkv, -⟩ := Option.map_eq_some_iff.mp h
  have hkey := List.find?_some hkv
  exact ⟨kv, List.mem_of_find?_eq_some hkv, of_decide_eq_true hkey⟩

theorem blank_iff {s : Str} : Blank s ↔ ∀ c ∈ s, isBlank c = true := List.all_eq_true

theorem trimBlanks_blank_left {w : Str} (s : Str) (h : Blank w) :
    trimBlanks (w ++ s) = trimBlanks s := by
  rw [trimBlanks, List.dropWhile_append_of_pos (blank_iff.mp h), trimBlanks]

theorem rdropWhile_blank_right (s : Str) {w : Str} (h : Blank w) :
    (s ++ w).rdropWhile isBlank = s.rdropWhile isBlank := by
  have hw : ∀ c ∈ w.reverse, isBlank c = true := fun c hc =>
    blank_iff.mp h c (List.mem_reverse.mp hc)
  rw [List.rdropWhile, List.reverse_append, List.dropWhile_append_of_pos hw, List.rdropWhile]

theorem trimBlanks_blank {w : Str} (h : Blank w) : trimBlanks w = [] := by
  have hnil : w.dropWhile isBlank = [] := List.dropWhile_eq_nil_iff.mpr (blank_iff.mp h)
  rw [trimBlanks, hnil]
  rfl

/-- Behind something that is not blank, `t` is kept up to its last blanks. -/
theorem trimBlanks_append {s t : Str} (hs : ¬ Blank s) (ht : ¬ Blank t) :
    trimBlanks (s ++ t) = s.dropWhile isBlank ++ t.rdropWhile isBlank := by
  have hs' : s.dropWhile isBlank ≠ [] := fun h => hs (blank_iff.mpr (List.dropWhile_eq_nil_iff.mp h))
  have ht' : t.reverse.dropWhile isBlank ≠ [] := fun h => ht (blank_iff.mpr fun c hc =>
    List.dropWhile_eq_nil_iff.mp h c (List.mem_reverse.mpr hc))
  rw [trimBlanks, List.dropWhile_append, if_neg (by simpa using hs'), List.rdropWhile,
    List.reverse_append, List.dropWhile_append, if_neg (by simpa using ht'), List.reverse_append,
    List.reverse_reverse, List.rdropWhile]

theorem tableParse_laws {table : List (Str × Json)} (h : TextTable table) :
    JsonText (tableParse table) where
  blank := by
    intro w hw
    cases hparse : tableParse table w with
    | none => rfl
    | some v =>
        obtain ⟨kv, hkv, hkey⟩ := tableParse_some hparse
        exact absurd (hkey.trans (trimBlanks_blank hw)) (h.nonempty kv hkv)
  blank_left := by
    intro w s v hw hv
    rw [tableParse, trimBlanks_blank_left s hw] at hv
    exact hv
  blank_right := by
    intro s w hw
    have htrim : trimBlanks (s ++ w) = trimBlanks s := by
      by_cases hs : Blank s
      · rw [trimBlanks_blank (blank_append.mpr ⟨hs, hw⟩), trimBlanks_blank hs]
      · have hs' : s.dropWhile isBlank ≠ [] :=
          fun h => hs (blank_iff.mpr (List.dropWhile_eq_nil_iff.mp h))
        rw [trimBlanks, List.dropWhile_append, if_neg (by simpa using hs'),
          rdropWhile_blank_right _ hw, trimBlanks]
    rw [tableParse, tableParse, htrim]
  rest_blank := by
    intro s t v v' hv hv' _ _
    by_contra ht
    obtain ⟨kv, hkv, hkey⟩ := tableParse_some hv
    obtain ⟨kv', hkv', hkey'⟩ := tableParse_some hv'
    have hs : ¬ Blank s := fun hs => h.nonempty kv hkv (hkey.trans (trimBlanks_blank hs))
    rw [trimBlanks_append hs ht] at hkey'
    obtain ⟨b, hb⟩ : kv.1 <+: s.dropWhile isBlank := hkey ▸ List.rdropWhile_prefix _ _
    -- the longer text properly extends the shorter
    rw [← hb, List.append_assoc] at hkey'
    have hsame := h.prefix_free kv hkv kv' hkv' ⟨_, hkey'.symm⟩
    rw [← hsame] at hkey'
    have hrest := List.append_eq_nil_iff.mp (List.self_eq_append_right.mp hkey')
    exact ht (blank_iff.mpr (List.rdropWhile_eq_nil_iff.mp hrest.2))

end DogeConnect
