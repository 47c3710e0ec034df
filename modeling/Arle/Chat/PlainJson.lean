import Mathlib
import Arle.Chat.Protocol

/-!
# A JSON library of strings and objects

The part of JSON that a tool call with string arguments needs: objects with sorted keys, in
compact form. It behaves as documented, so the round trip of tool calls can be run with it.
-/

namespace Arle.Chat

open Quoted

mutual

/-- A value that is a string or an object. -/
inductive Doc
  | text (s : Str)
  | object (fields : Fields)

/-- The fields of an object. -/
inductive Fields
  | nil
  | cons (key : Str) (value : Doc) (rest : Fields)

end

def escape (c : Char) : Str := if c = '"' ∨ c = '\\' then ['\\', c] else [c]

mutual

def Doc.toText : Doc → Str
  | .text s => '"' :: (s.flatMap escape ++ ['"'])
  | .object fields => '{' :: fields.toText true

/-- The fields and the closing brace. -/
def Fields.toText : Bool → Fields → Str
  | _, .nil => ['}']
  | first, .cons key value rest =>
    (if first then [] else [',']) ++ ('"' :: (key.flatMap escape ++ ('"' :: ':' ::
      (value.toText ++ rest.toText false))))

end

mutual

def Doc.strings : Doc → List Str
  | .text s => [s]
  | .object fields => fields.strings

def Fields.strings : Fields → List Str
  | .nil => []
  | .cons key value rest => key :: (value.strings ++ rest.strings)

end

mutual

def Doc.size : Doc → Nat
  | .text _ => 1
  | .object fields => fields.size + 1

def Fields.size : Fields → Nat
  | .nil => 1
  | .cons _ value rest => value.size + rest.size + 1

end

namespace Fields

def lookup (key : Str) : Fields → Option Doc
  | .nil => none
  | .cons k value rest => if key = k then some value else rest.lookup key

/-- Insert a field at its place in the order of the keys. -/
def insert (key : Str) (value : Doc) : Fields → Fields
  | .nil => .cons key value .nil
  | .cons k v rest =>
    if key = k then .cons k value rest
    else if key < k then .cons key value (.cons k v rest)
    else .cons k v (rest.insert key value)

def ofList (fields : List (Str × Doc)) : Fields :=
  fields.foldl (fun acc field => acc.insert field.1 field.2) .nil

def toList : Fields → List (Str × Doc)
  | .nil => []
  | .cons key value rest => (key, value) :: rest.toList

end Fields

/-- The rest of a text behind a character. -/
def expect (c : Char) : Str → Option Str
  | [] => none
  | d :: s => if d = c then some s else none

/-- The string in front of the next quote. -/
def unquote : Str → Option (Str × Str)
  | [] => none
  | '"' :: s => some ([], s)
  | '\\' :: c :: s => (unquote s).map fun r => (c :: r.1, r.2)
  | c :: s => (unquote s).map fun r => (c :: r.1, r.2)

mutual

def readDoc : Nat → Str → Option (Doc × Str)
  | 0, _ => none
  | n + 1, s =>
    match expect '"' s with
    | some s => (unquote s).map fun r => (.text r.1, r.2)
    | none => do
      let s ← expect '{' s
      let r ← readFields n true s
      return (.object r.1, r.2)

def readFields : Nat → Bool → Str → Option (Fields × Str)
  | 0, _, _ => none
  | n + 1, first, s =>
    match expect '}' s with
    | some s => some (.nil, s)
    | none => do
      let s ← if first then some s else expect ',' s
      let s ← expect '"' s
      let key ← unquote s
      let s ← expect ':' key.2
      let value ← readDoc n s
      let rest ← readFields n false value.2
      return (.cons key.1 value.1 rest.1, rest.2)

end

/-- The value of a text that is in compact form. -/
def Doc.fromText (s : Str) : Option Doc :=
  match readDoc s.length s with
  | some (doc, _) => if doc.toText = s then some doc else none
  | none => none

def plainJson : Json Doc where
  toText := Doc.toText
  fromText := Doc.fromText
  text := Doc.text
  array _ := .text []
  object fields := .object (Fields.ofList fields)
  get
    | .object fields, key => fields.lookup key
    | .text _, _ => none
  asText
    | .text s => some s
    | .object _ => none
  asArray _ := none
  asObject
    | .object fields => some fields.toList
    | .text _ => none

/-! ## The text of a value is read back -/

section Read

theorem escape_of_plain {c : Char} (h : ¬ (c = '"' ∨ c = '\\')) : escape c = [c] := if_neg h

theorem escape_of_special {c : Char} (h : c = '"' ∨ c = '\\') : escape c = ['\\', c] := if_pos h

theorem unquote_escape (s rest : Str) :
    unquote (s.flatMap escape ++ ('"' :: rest)) = some (s, rest) := by
  induction s with
  | nil => rfl
  | cons c s ih =>
    rw [List.flatMap_cons, List.append_assoc]
    by_cases hc : c = '"' ∨ c = '\\'
    · rw [escape_of_special hc]
      change (unquote (s.flatMap escape ++ ('"' :: rest))).map _ = _
      rw [ih]
      rfl
    · rw [escape_of_plain hc]
      rw [not_or] at hc
      change unquote (c :: (s.flatMap escape ++ ('"' :: rest))) = _
      unfold unquote
      split
      · rename_i heq
        cases heq
      · rename_i heq
        exact absurd (List.cons.inj heq).1 hc.1
      · rename_i heq
        exact absurd (List.cons.inj heq).1 hc.2
      · rename_i heq
        obtain ⟨rfl, rfl⟩ := List.cons.inj heq
        rw [ih]
        rfl

mutual

theorem readDoc_toText (doc : Doc) (rest : Str) (n : Nat) (hn : doc.size ≤ n) :
    readDoc n (doc.toText ++ rest) = some (doc, rest) := by
  cases n with
  | zero => cases doc <;> simp [Doc.size] at hn
  | succ n =>
    cases doc with
    | text s =>
      have hread := unquote_escape s rest
      simp only [Doc.toText, List.cons_append, List.append_assoc, List.nil_append, readDoc, expect,
        if_true, hread, Option.map_some]
    | object fields =>
      rw [Doc.size] at hn
      have hread := readFields_toText fields true rest n (by omega)
      simp only [Doc.toText, List.cons_append, readDoc, expect]
      simp [hread]

theorem readFields_toText (fields : Fields) (first : Bool) (rest : Str) (n : Nat)
    (hn : fields.size ≤ n) :
    readFields n first (fields.toText first ++ rest) = some (fields, rest) := by
  cases n with
  | zero => cases fields <;> simp [Fields.size] at hn
  | succ n =>
    cases fields with
    | nil => simp [Fields.toText, readFields, expect]
    | cons key value more =>
      rw [Fields.size] at hn
      have hkey := unquote_escape key
      have hvalue := fun rest => readDoc_toText value rest n (by omega)
      have hmore := readFields_toText more false rest n (by omega)
      cases first with
      | true => simp [Fields.toText, readFields, expect, hkey, hvalue, hmore]
      | false => simp [Fields.toText, readFields, expect, hkey, hvalue, hmore]

end

mutual

theorem Doc.size_le (doc : Doc) : doc.size ≤ doc.toText.length := by
  cases doc with
  | text s =>
    simp only [Doc.size, Doc.toText, List.length_cons]
    omega
  | object fields =>
    have hle := Fields.size_le fields true
    simp only [Doc.size, Doc.toText, List.length_cons]
    omega

theorem Fields.size_le (fields : Fields) (first : Bool) :
    fields.size ≤ (fields.toText first).length := by
  cases fields with
  | nil => simp [Fields.size, Fields.toText]
  | cons key value rest =>
    have hvalue := Doc.size_le value
    have hrest := Fields.size_le rest false
    simp only [Fields.size, Fields.toText, List.length_append, List.length_cons]
    omega

end

theorem fromText_toText (doc : Doc) : Doc.fromText doc.toText = some doc := by
  have hread := readDoc_toText doc [] doc.toText.length doc.size_le
  rw [List.append_nil] at hread
  unfold Doc.fromText
  rw [hread]
  exact if_pos rfl

/-- Only texts in compact form are read. -/
theorem toText_of_fromText {s : Str} {doc : Doc} (h : Doc.fromText s = some doc) :
    doc.toText = s := by
  unfold Doc.fromText at h
  split at h
  · split at h
    · rename_i htext
      rw [← Option.some.inj h]
      exact htext
    · cases h
  · cases h

end Read

/-! ## What is documented -/

section Documented

theorem lookup_insert (key k : Str) (value : Doc) (fields : Fields) :
    (fields.insert key value).lookup k = if k = key then some value else fields.lookup k := by
  cases fields with
  | nil => rfl
  | cons head v rest =>
    have ih := lookup_insert key k value rest
    unfold Fields.insert
    split
    · rename_i heq
      subst heq
      unfold Fields.lookup
      split <;> rfl
    · rename_i hne
      split
      · rfl
      · unfold Fields.lookup
        by_cases hk : k = head
        · rw [if_pos hk, if_pos hk, if_neg fun h => hne (h.symm.trans hk)]
        · rw [if_neg hk, if_neg hk]
          exact ih

/-- Insertions of keys that differ. -/
theorem lookup_foldl_insert (fields : List (Str × Doc)) (hnodup : (fields.map Prod.fst).Nodup)
    (acc : Fields) (k : Str) :
    (fields.foldl (fun acc field => acc.insert field.1 field.2) acc).lookup k =
      (fields.lookup k).or (acc.lookup k) := by
  induction fields generalizing acc with
  | nil => rfl
  | cons field fields ih =>
    obtain ⟨hfield, hrest⟩ := List.nodup_cons.mp hnodup
    rw [List.foldl_cons, ih hrest, lookup_insert, List.lookup_cons]
    by_cases hk : k = field.1
    · have hnone : fields.lookup k = none := by
        apply List.lookup_eq_none_iff.mpr
        intro other hother
        rw [bne_iff_ne]
        intro heq
        apply hfield
        rw [← hk, heq]
        exact List.mem_map_of_mem hother
      rw [if_pos hk, hnone, hk, beq_self_eq_true]
      rfl
    · rw [if_neg hk, beq_false_of_ne hk]

theorem toText_braces (fields : Fields) (first : Bool) :
    ∃ inside, fields.toText first = inside ++ ['}'] := by
  cases fields with
  | nil => exact ⟨[], rfl⟩
  | cons key value rest =>
    obtain ⟨inside, hinside⟩ := toText_braces rest false
    refine ⟨(if first then [] else [',']) ++ ('"' :: (key.flatMap escape ++ ('"' :: ':' ::
      (value.toText ++ inside)))), ?_⟩
    rw [Fields.toText, hinside]
    simp only [List.append_assoc, List.cons_append]

theorem plainJson_documented : plainJson.Documented where
  fromText_toText := fromText_toText
  asText_text _ := rfl
  get_object fields hnodup key := by
    change (Fields.ofList fields).lookup key = _
    unfold Fields.ofList
    rw [lookup_foldl_insert fields hnodup]
    exact Option.or_none
  toText_object fields := by
    obtain ⟨inside, hinside⟩ := toText_braces (Fields.ofList fields) true
    refine ⟨inside, ?_⟩
    change '{' :: (Fields.ofList fields).toText true = _
    rw [hinside]
    rfl

end Documented

/-! ## What is lexical -/

section Lexical

theorem scan_escape (s : Str) :
    Clean .inside (s.flatMap escape) ∧ scan .inside (s.flatMap escape) = .inside := by
  induction s with
  | nil => exact ⟨trivial, rfl⟩
  | cons c s ih =>
    have hc : Clean .inside (escape c) ∧ scan .inside (escape c) = .inside := by
      by_cases hs : c = '"' ∨ c = '\\'
      · rw [escape_of_special hs]
        have hlt : c ≠ '<' := by
          rintro rfl
          revert hs
          decide
        exact ⟨⟨by decide, by decide, fun h => Mode.noConfusion h, fun _ => hlt, trivial⟩, rfl⟩
      · rw [escape_of_plain hs]
        rw [not_or] at hs
        refine ⟨⟨fun h => Mode.noConfusion h, fun h => absurd rfl h, trivial⟩, ?_⟩
        exact (if_neg hs.1).trans (if_neg hs.2)
    rw [List.flatMap_cons, clean_append, scan_append, hc.2]
    exact ⟨⟨hc.1, ih.1⟩, ih.2⟩

/-- A string literal. -/
theorem lexes_quote (s : Str) : Lexes ('"' :: (s.flatMap escape ++ ['"'])) := by
  obtain ⟨hclean, hscan⟩ := scan_escape s
  refine ⟨⟨by decide, by decide, ?_⟩, ?_⟩
  · change Clean .inside _
    rw [clean_append, hscan]
    exact ⟨hclean, by simp [Clean]⟩
  · change scan .inside _ = _
    rw [scan_append, hscan]
    rfl

theorem plain_comma : Plain ',' := by decide

theorem plain_colon : Plain ':' := by decide

mutual

theorem lexes_doc (doc : Doc) : Lexes doc.toText := by
  cases doc with
  | text s => exact lexes_quote s
  | object fields => exact Lexes.cons (by decide) (lexes_fields fields true)

theorem lexes_fields (fields : Fields) (first : Bool) : Lexes (fields.toText first) := by
  cases fields with
  | nil => exact Lexes.cons (s := []) (by decide) ⟨trivial, rfl⟩
  | cons key value rest =>
    have hbody : Lexes ('"' :: (key.flatMap escape ++ ('"' :: ':' ::
        (value.toText ++ rest.toText false)))) := by
      have hlex := (lexes_quote key).append
        (((lexes_doc value).append (lexes_fields rest false)).cons plain_colon)
      simpa only [List.cons_append, List.append_assoc, List.nil_append] using hlex
    cases first with
    | true => exact hbody
    | false => exact hbody.cons plain_comma

end

theorem flatMap_escape_of_not_mem {s : Str} (h : '\\' ∉ s.flatMap escape) :
    s.flatMap escape = s := by
  induction s with
  | nil => rfl
  | cons c s ih =>
    rw [List.flatMap_cons, List.mem_append, not_or] at h
    rw [List.flatMap_cons, ih h.2]
    by_cases hc : c = '"' ∨ c = '\\'
    · rw [escape_of_special hc] at h
      exact absurd List.mem_cons_self h.1
    · rw [escape_of_plain hc]
      rfl

mutual

/-- A text without backslashes has all strings of its value. -/
theorem spelled_doc (doc : Doc) (h : '\\' ∉ doc.toText) {t : Str} (ht : t ∈ doc.strings) :
    t <:+: doc.toText := by
  cases doc with
  | text s =>
    obtain rfl := List.mem_singleton.mp ht
    rw [Doc.toText, List.mem_cons, List.mem_append, not_or, not_or] at h
    rw [Doc.toText, flatMap_escape_of_not_mem h.2.1]
    exact ⟨['"'], ['"'], rfl⟩
  | object fields =>
    rw [Doc.toText, List.mem_cons, not_or] at h
    exact List.infix_cons (spelled_fields fields true h.2 ht)

theorem spelled_fields (fields : Fields) (first : Bool) (h : '\\' ∉ fields.toText first) {t : Str}
    (ht : t ∈ fields.strings) : t <:+: fields.toText first := by
  cases fields with
  | nil => cases ht
  | cons key value rest =>
    rw [Fields.toText, List.mem_append, List.mem_cons, List.mem_append, List.mem_cons,
      List.mem_cons, List.mem_append] at h
    simp only [not_or] at h
    obtain ⟨-, -, hkey, -, -, hvalue, hrest⟩ := h
    rw [Fields.toText, flatMap_escape_of_not_mem hkey]
    rw [Fields.strings, List.mem_cons, List.mem_append] at ht
    rcases ht with rfl | ht | ht
    · exact ⟨(if first then [] else [',']) ++ ['"'],
        '"' :: ':' :: (value.toText ++ rest.toText false), by simp⟩
    · obtain ⟨before, after, hvalueText⟩ := spelled_doc value hvalue ht
      exact ⟨(if first then [] else [',']) ++ ('"' :: (key ++ ('"' :: ':' :: before))),
        after ++ rest.toText false, by rw [← hvalueText]; simp⟩
    · obtain ⟨before, after, hrestText⟩ := spelled_fields rest false hrest ht
      exact ⟨(if first then [] else [',']) ++ ('"' :: (key ++ ('"' :: ':' :: (value.toText ++ before)))),
        after, by rw [← hrestText]; simp⟩

end

section Written

variable {pat : Str} (hhead : pat.head? = some '<') (hquote : '"' ∉ pat) (hback : '\\' ∉ pat)

include hback in
theorem prefix_of_escape {s : Str} (h : pat <+: s.flatMap escape) : pat <+: s := by
  induction s generalizing pat with
  | nil => exact h
  | cons c s ih =>
    cases pat with
    | nil => exact List.nil_prefix
    | cons d pat =>
      rw [List.mem_cons, not_or] at hback
      rw [List.flatMap_cons] at h
      by_cases hc : c = '"' ∨ c = '\\'
      · rw [escape_of_special hc] at h
        exact absurd (List.cons_prefix_cons.mp h).1.symm hback.1
      · rw [escape_of_plain hc] at h
        obtain ⟨hd, htail⟩ := List.cons_prefix_cons.mp h
        exact List.cons_prefix_cons.mpr ⟨hd, ih hback.2 htail⟩

include hhead

theorem infix_of_cons {c : Char} (hc : c ≠ '<') {s : Str} (h : pat <:+: c :: s) : pat <:+: s := by
  rcases List.infix_cons_iff.mp h with hprefix | hinfix
  · cases pat with
    | nil => cases hhead
    | cons d pat =>
      obtain ⟨rfl, -⟩ := List.cons_prefix_cons.mp hprefix
      exact absurd (Option.some.inj hhead) hc
  · exact hinfix

include hquote hback

omit hquote in
/-- What is escaped is not in the pattern. -/
theorem infix_of_escape {s : Str} (h : pat <:+: s.flatMap escape) : pat <:+: s := by
  induction s with
  | nil => exact h
  | cons c s ih =>
    rw [List.flatMap_cons] at h
    by_cases hc : c = '"' ∨ c = '\\'
    · have hlt : c ≠ '<' := by
        rintro rfl
        revert hc
        decide
      rw [escape_of_special hc] at h
      have htail := infix_of_cons hhead hlt (infix_of_cons hhead (by decide) h)
      exact List.infix_cons (ih htail)
    · have hsame := escape_of_plain hc
      rw [hsame] at h
      rcases List.infix_cons_iff.mp h with hprefix | hinfix
      · have hwhole : pat <+: (c :: s).flatMap escape := by
          rw [List.flatMap_cons, hsame]
          exact hprefix
        exact (prefix_of_escape hback hwhole).isInfix
      · exact List.infix_cons (ih hinfix)

/-- A literal in front of a text. -/
theorem infix_of_quote {s rest : Str}
    (h : pat <:+: '"' :: (s.flatMap escape ++ ('"' :: rest))) : pat <:+: s ∨ pat <:+: rest := by
  have htail := infix_of_cons hhead (by decide) h
  rcases Search.infix_split hquote htail with hs | hrest
  · exact Or.inl (infix_of_escape hhead hback hs)
  · exact Or.inr hrest

mutual

/-- A pattern in the text of a value, or behind it, is in a string of the value, or behind it. -/
theorem written_doc (doc : Doc) (rest : Str) (h : pat <:+: doc.toText ++ rest) :
    (∃ t ∈ doc.strings, pat <:+: t) ∨ pat <:+: rest := by
  cases doc with
  | text s =>
    rw [Doc.toText, List.cons_append, List.append_assoc, List.singleton_append] at h
    rcases infix_of_quote hhead hquote hback h with hs | hrest
    · exact Or.inl ⟨s, List.mem_singleton.mpr rfl, hs⟩
    · exact Or.inr hrest
  | object fields =>
    rw [Doc.toText, List.cons_append] at h
    exact written_fields fields true rest (infix_of_cons hhead (by decide) h)

theorem written_fields (fields : Fields) (first : Bool) (rest : Str)
    (h : pat <:+: fields.toText first ++ rest) :
    (∃ t ∈ fields.strings, pat <:+: t) ∨ pat <:+: rest := by
  cases fields with
  | nil => exact Or.inr (infix_of_cons hhead (by decide) h)
  | cons key value more =>
    have hbody : pat <:+: '"' :: (key.flatMap escape ++ ('"' :: ':' ::
        (value.toText ++ (more.toText false ++ rest)))) := by
      cases first with
      | true => simpa [Fields.toText] using h
      | false =>
        rw [Fields.toText] at h
        have htail := infix_of_cons hhead (by decide) h
        simpa using htail
    rcases infix_of_quote hhead hquote hback hbody with hkey | htail
    · exact Or.inl ⟨key, List.mem_cons_self, hkey⟩
    rcases written_doc value _ (infix_of_cons hhead (by decide) htail) with ⟨t, ht, hin⟩ | htail
    · exact Or.inl ⟨t, List.mem_cons_of_mem _ (List.mem_append_left _ ht), hin⟩
    rcases written_fields more false rest htail with ⟨t, ht, hin⟩ | hrest
    · exact Or.inl ⟨t, List.mem_cons_of_mem _ (List.mem_append_right _ ht), hin⟩
    · exact Or.inr hrest

end

end Written

theorem strings_lookup {fields : Fields} {key : Str} {doc : Doc}
    (h : fields.lookup key = some doc) : doc.strings ⊆ fields.strings := by
  cases fields with
  | nil => cases h
  | cons k value rest =>
    intro t ht
    rw [Fields.strings, List.mem_cons, List.mem_append]
    unfold Fields.lookup at h
    split at h
    · obtain rfl := Option.some.inj h
      exact Or.inr (Or.inl ht)
    · exact Or.inr (Or.inr (strings_lookup h ht))

theorem strings_insert {key t : Str} {value : Doc} {fields : Fields}
    (ht : t ∈ (fields.insert key value).strings) :
    t = key ∨ t ∈ value.strings ∨ t ∈ fields.strings := by
  cases fields with
  | nil => simpa [Fields.insert, Fields.strings] using ht
  | cons k v rest =>
    have ih := @strings_insert key t value rest
    unfold Fields.insert at ht
    split at ht
    · simp only [Fields.strings, List.mem_cons, List.mem_append] at ht ⊢
      rcases ht with rfl | ht | ht
      · exact Or.inr (Or.inr (Or.inl rfl))
      · exact Or.inr (Or.inl ht)
      · exact Or.inr (Or.inr (Or.inr (Or.inr ht)))
    · split at ht
      · simpa [Fields.strings, or_assoc] using ht
      · simp only [Fields.strings, List.mem_cons, List.mem_append] at ht ⊢
        rcases ht with rfl | ht | ht
        · exact Or.inr (Or.inr (Or.inl rfl))
        · exact Or.inr (Or.inr (Or.inr (Or.inl ht)))
        · rcases ih ht with rfl | ht | ht
          · exact Or.inl rfl
          · exact Or.inr (Or.inl ht)
          · exact Or.inr (Or.inr (Or.inr (Or.inr ht)))

theorem strings_foldl_insert (fields : List (Str × Doc)) (acc : Fields) {t : Str}
    (ht : t ∈ (fields.foldl (fun acc field => acc.insert field.1 field.2) acc).strings) :
    (∃ field ∈ fields, t = field.1 ∨ t ∈ field.2.strings) ∨ t ∈ acc.strings := by
  induction fields generalizing acc with
  | nil => exact Or.inr ht
  | cons field fields ih =>
    rcases ih _ ht with ⟨other, hother, hin⟩ | ht
    · exact Or.inl ⟨other, List.mem_cons_of_mem _ hother, hin⟩
    · rcases strings_insert ht with hkey | hvalue | hacc
      · exact Or.inl ⟨field, List.mem_cons_self, Or.inl hkey⟩
      · exact Or.inl ⟨field, List.mem_cons_self, Or.inr hvalue⟩
      · exact Or.inr hacc

theorem plainJson_lexical : plainJson.Lexical Doc.strings where
  lexes s doc h := by
    rw [← toText_of_fromText h]
    exact lexes_doc doc
  spelled s doc h hback t ht := by
    obtain rfl := toText_of_fromText h
    exact spelled_doc doc hback ht
  written doc pat hhead hquote hback h := by
    rcases written_doc hhead hquote hback doc [] (by rw [List.append_nil]; exact h) with
      hin | hnil
    · exact hin
    · obtain rfl := List.infix_nil.mp hnil
      cases hhead
  strings_get doc key w h := by
    cases doc with
    | text s => cases h
    | object fields => exact strings_lookup h
  strings_asText doc s h := by
    cases doc with
    | text t =>
      obtain rfl := Option.some.inj h
      exact List.mem_singleton.mpr rfl
    | object fields => cases h
  strings_text s := List.Subset.refl _
  strings_object fields t ht := by
    rcases strings_foldl_insert fields .nil ht with hin | hnil
    · exact hin
    · cases hnil

end Lexical

end Arle.Chat
