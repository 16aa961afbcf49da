import Mathlib.Data.List.Basic
import ObjectGraph.Types.Registry

/-!
# How the keys of types read

A key is put together from the keys of a type's parts, with brackets behind an array's element
and parentheses around a function's parameters. To read a function's key back into its parts one
has to find where a parameter ends: at the first comma or closing parenthesis that stands outside
of parentheses (`upToComma`). What carries this through is that reading skips a whole key at any
depth (`Skipped`), because parentheses come in pairs and the names of classes hold none (`Word`).
With it the parts of a function's key are determined by its text (`functionName_injective`).

The end of a key has no such mark. `(int) => int[]` is the key of an array of functions and also
of a function that gives an array, and nothing here tells the two apart.
-/

namespace ObjectGraph

/-! ## Names -/

/-- The characters that the keys of structural types, placeholders and poison are put together
with. -/
def keyPunctuation : List Char := ['(', ')', '[', ']', ',', '.', '<', '>', '#', '=', ' ']

/-- Whether a text is free of some characters can be computed. -/
theorem forall_not_mem_of_all {text marks : List Char}
    (h : (text.all fun c => !marks.contains c) = true) : ∀ c ∈ text, c ∉ marks := by
  intro c hc hmark
  have hfree := List.all_eq_true.mp h c hc
  rw [List.contains_iff_mem.mpr hmark] at hfree
  cases hfree

/-- A text that may name a class. -/
structure PlainName (name : String) : Prop where
  /-- There is a name. -/
  nonempty : name.toList ≠ []
  /-- It reads as one word in any key. -/
  plain : ∀ c ∈ name.toList, c ∉ keyPunctuation

/-- Plain names with points between them, such as the owners of placeholders have. -/
def DottedName (name : String) : Prop := ∀ c ∈ name.toList, c = '.' ∨ c ∉ keyPunctuation

/-- Whether a name is dotted can be decided character by character. -/
instance DottedName.instDecidable (name : String) : Decidable (DottedName name) :=
  List.decidableBAll (fun c => c = '.' ∨ c ∉ keyPunctuation) name.toList

/-- The characters that give a key its structure. -/
def keyBrackets : List Char := ['(', ')', '[', ']', ',']

/-- All of them are punctuation. -/
theorem keyBrackets_subset : keyBrackets ⊆ keyPunctuation := by decide

/-- A text without brackets, parentheses and commas. -/
def Word (text : String) : Prop := ∀ c ∈ text.toList, c ∉ keyBrackets

/-- A plain name is one without points. -/
theorem PlainName.dotted {name : String} (h : PlainName name) : DottedName name :=
  fun c hc => .inr (h.plain c hc)

/-- A plain name is a word. -/
theorem PlainName.word {name : String} (h : PlainName name) : Word name :=
  fun c hc hbracket => h.plain c hc (keyBrackets_subset hbracket)

/-- A placeholder's key is a word. -/
theorem word_placeholder {owner name : String} (ho : DottedName owner) (hn : PlainName name) :
    Word (owner ++ "." ++ name) := by
  intro c hc
  rw [String.toList_append, String.toList_append, List.mem_append, List.mem_append] at hc
  rcases hc with (hc | hc) | hc
  · rcases ho c hc with rfl | hplain
    · decide
    · exact fun hbracket => hplain (keyBrackets_subset hbracket)
  · rw [List.mem_singleton.mp hc]
    decide
  · exact hn.word c hc

/-- A placeholder's key is a text of names and points. -/
theorem dottedName_placeholder {owner name : String} (ho : DottedName owner) (hn : PlainName name) :
    DottedName (owner ++ "." ++ name) := by
  intro c hc
  rw [String.toList_append, String.toList_append, List.mem_append, List.mem_append] at hc
  rcases hc with (hc | hc) | hc
  · exact ho c hc
  · exact .inl (List.mem_singleton.mp hc)
  · exact .inr (hn.plain c hc)

/-- A placeholder's key determines its owner and its name, which is what follows the last point. -/
theorem placeholder_injective {owner owner' name name' : String} (hn : PlainName name)
    (hn' : PlainName name') (h : owner ++ "." ++ name = owner' ++ "." ++ name') :
    owner = owner' ∧ name = name' := by
  have hdot : ∀ {name : String} {before after : List Char}, PlainName name →
      name.toList ≠ before ++ '.' :: after := by
    intro name before after hname heq
    refine hname.plain '.' ?_ (by decide)
    rw [heq]
    exact List.mem_append_right _ List.mem_cons_self
  have htexts : owner.toList ++ '.' :: name.toList = owner'.toList ++ '.' :: name'.toList := by
    simpa using congrArg String.toList h
  -- One owner begins the other one's text. Were it shorter, a name would have a point in it.
  rcases List.append_eq_append_iff.mp htexts with ⟨more, howner, hrest⟩ | ⟨more, howner, hrest⟩
  · cases more with
    | nil =>
      rw [List.append_nil] at howner
      exact ⟨(String.toList_inj.mp howner).symm,
        String.toList_inj.mp (List.tail_eq_of_cons_eq hrest)⟩
    | cons c more => exact absurd (List.tail_eq_of_cons_eq hrest) (hdot hn)
  · cases more with
    | nil =>
      rw [List.append_nil] at howner
      exact ⟨String.toList_inj.mp howner,
        (String.toList_inj.mp (List.tail_eq_of_cons_eq hrest)).symm⟩
    | cons c more => exact absurd (List.tail_eq_of_cons_eq hrest) (hdot hn')

/-- The key of the poison type with the given number. -/
def poisonKey (count : ℕ) : String := s!"<poison#{count}>"

/-- The characters of a poison type's key. -/
theorem toList_poisonKey (count : ℕ) :
    (poisonKey count).toList = "<poison#".toList ++ ((Nat.repr count).toList ++ ['>']) := by
  simp [poisonKey, toString]

/-- A poison type's key is made of the characters of one word, and digits. -/
theorem mem_poisonKey {count : ℕ} {c : Char} (hc : c ∈ (poisonKey count).toList) :
    c ∈ "<poison#>".toList ∨ c.isDigit = true := by
  rw [toList_poisonKey, List.mem_append, List.mem_append, Nat.toList_repr] at hc
  rcases hc with hc | hc | hc
  · exact .inl ((by decide : "<poison#".toList ⊆ "<poison#>".toList) hc)
  · exact .inr (Nat.isDigit_of_mem_toDigits (by decide) (by decide) hc)
  · rw [List.mem_singleton.mp hc]
    exact .inl (by decide)

/-- A poison type's key is a word. -/
theorem word_poisonKey (count : ℕ) : Word (poisonKey count) := by
  have hdigits : (keyBrackets.all fun c => !c.isDigit) = true := by decide
  intro c hc hbracket
  rcases mem_poisonKey hc with hword | hdigit
  · exact forall_not_mem_of_all (by decide) c hword hbracket
  · have hother := List.all_eq_true.mp hdigits c hbracket
    rw [hdigit] at hother
    cases hother

/-- A poison type's key is not a text of names and points. -/
theorem not_dottedName_poisonKey (count : ℕ) : ¬ DottedName (poisonKey count) := by
  intro h
  have hmark : '<' ∈ (poisonKey count).toList := by
    rw [toList_poisonKey]
    exact List.mem_append_left _ (by decide)
  exact absurd (h '<' hmark) (by decide)

/-- Poison types with different numbers have different keys. -/
theorem poisonKey_injective : Function.Injective poisonKey := by
  intro m n h
  have htexts := congrArg String.toList h
  rw [toList_poisonKey, toList_poisonKey, Nat.toList_repr, Nat.toList_repr] at htexts
  have hdigits := List.append_cancel_right (List.append_cancel_left htexts)
  calc m = Nat.ofDigitChars 10 (Nat.toDigits 10 m) 0 := Nat.ofDigitChars_ten_toDigits.symm
    _ = Nat.ofDigitChars 10 (Nat.toDigits 10 n) 0 := by rw [hdigits]
    _ = n := Nat.ofDigitChars_ten_toDigits

/-! ## Where a parameter ends -/

/-- The text up to the first comma or closing parenthesis that is not inside of parentheses, if
`depth` parentheses are open at its beginning. -/
@[simp] def upToComma : ℕ → List Char → List Char
  | _, [] => []
  | depth, '(' :: text => '(' :: upToComma (depth + 1) text
  | 0, ')' :: _ => []
  | depth + 1, ')' :: text => ')' :: upToComma depth text
  | 0, ',' :: _ => []
  | depth, c :: text => c :: upToComma depth text

/-- Reading goes past the text, to what is behind it, if at least `least` parentheses are open. -/
def Skipped (least : ℕ) (text : List Char) : Prop :=
  ∀ depth ≥ least, ∀ rest, upToComma depth (text ++ rest) = text ++ upToComma depth rest

namespace Skipped

/-- What is skipped stays so inside of more parentheses. -/
theorem mono {m n : ℕ} {text : List Char} (h : Skipped m text) (hmn : m ≤ n) : Skipped n text :=
  fun depth hdepth => h depth (Nat.le_trans hmn hdepth)

/-- Two texts that are skipped are skipped one after the other. -/
theorem append {n : ℕ} {first second : List Char} (hf : Skipped n first) (hs : Skipped n second) :
    Skipped n (first ++ second) := by
  intro depth hdepth rest
  calc upToComma depth (first ++ second ++ rest)
      = upToComma depth (first ++ (second ++ rest)) := by rw [List.append_assoc]
    _ = first ++ (second ++ upToComma depth rest) := by rw [hf depth hdepth, hs depth hdepth]
    _ = first ++ second ++ upToComma depth rest := (List.append_assoc ..).symm

/-- A text in parentheses is skipped where nothing else is open. -/
theorem parenthesised {n : ℕ} {text : List Char} (h : Skipped (n + 1) text) :
    Skipped n ('(' :: text ++ [')']) := by
  intro depth hdepth rest
  have hinner := h (depth + 1) (Nat.succ_le_succ hdepth) (')' :: rest)
  simp only [List.cons_append, List.append_assoc, List.nil_append, upToComma, hinner]

/-- A character other than a parenthesis or a comma is skipped. -/
theorem singleton {c : Char} (hc : c ∉ ['(', ')', ',']) : Skipped 0 [c] := by
  simp only [List.mem_cons, List.not_mem_nil, or_false, not_or] at hc
  obtain ⟨hopen, hclose, hcomma⟩ := hc
  intro depth _ rest
  rw [List.singleton_append, List.singleton_append, upToComma]
  · exact hopen
  · exact fun _ => hclose
  · exact fun _ _ => hclose
  · exact fun _ => hcomma

/-- A text without parentheses and commas is skipped. -/
theorem of_forall {text : List Char} (h : ∀ c ∈ text, c ∉ ['(', ')', ',']) : Skipped 0 text := by
  induction text with
  | nil => exact fun _ _ _ => rfl
  | cons c text ih =>
    exact .append (.singleton (h c List.mem_cons_self))
      (ih fun d hd => h d (List.mem_cons_of_mem c hd))

/-- Words are skipped. -/
theorem of_word {text : String} (h : Word text) : Skipped 0 text.toList :=
  .of_forall fun c hc hmem =>
    h c hc ((by decide : ['(', ')', ','] ⊆ keyBrackets) hmem)

/-- Inside of parentheses a list of texts with commas between them is skipped. -/
theorem intercalate {texts : List (List Char)} (h : ∀ text ∈ texts, Skipped 0 text) :
    Skipped 1 ([',', ' '].intercalate texts) := by
  have hcomma : Skipped 1 [',', ' '] := by
    intro depth hdepth rest
    obtain ⟨depth, rfl⟩ := Nat.exists_eq_add_of_le' hdepth
    rfl
  induction texts with
  | nil => exact fun _ _ _ => rfl
  | cons text texts ih =>
    have htext : Skipped 1 text := (h text List.mem_cons_self).mono (Nat.zero_le 1)
    have hrest := ih fun t ht => h t (List.mem_cons_of_mem text ht)
    cases texts with
    | nil =>
      rw [List.intercalate_singleton]
      exact htext
    | cons next texts =>
      rw [List.intercalate_cons_cons]
      exact (htext.append hcomma).append hrest

end Skipped

/-- The characters of an array type's key. -/
theorem toList_brackets (key : String) : (key ++ "[]").toList = key.toList ++ ['[', ']'] :=
  String.toList_append

/-- What is before a pair of brackets is determined. -/
theorem brackets_inj {name name' : String} (h : name ++ "[]" = name' ++ "[]") : name = name' := by
  have htexts := congrArg String.toList h
  rw [toList_brackets, toList_brackets] at htexts
  exact String.toList_inj.mp (List.append_cancel_right htexts)

/-- A text with pairs of brackets behind it. -/
def bracketed (text : String) : ℕ → String
  | 0 => text
  | depth + 1 => bracketed text depth ++ "[]"

/-- The characters of a text with pairs of brackets behind it. -/
theorem toList_bracketed (text : String) (depth : ℕ) :
    (bracketed text depth).toList = text.toList ++ (List.replicate depth ['[', ']']).flatten := by
  induction depth with
  | zero => rw [bracketed, List.replicate_zero, List.flatten_nil, List.append_nil]
  | succ depth ih =>
    rw [bracketed, toList_brackets, ih, List.replicate_succ', List.flatten_append,
      List.append_assoc, List.flatten_singleton]

/-- The characters of a function type's key. -/
theorem toList_functionName (params : List String) (result : String) :
    (Registry.functionName params result).toList =
      '(' :: ([',', ' '].intercalate (params.map String.toList) ++
        ')' :: (" => ".toList ++ result.toList)) := by
  simp [Registry.functionName]

/-- An array type's key is skipped if its element's key is. -/
theorem skipped_brackets {key : String} (h : Skipped 0 key.toList) :
    Skipped 0 (key ++ "[]").toList := by
  rw [toList_brackets]
  exact h.append (.of_forall (forall_not_mem_of_all (by decide)))

/-- A function type's key is skipped if the keys of its parts are. -/
theorem skipped_functionName {params : List String} {result : String}
    (hparams : ∀ p ∈ params, Skipped 0 p.toList) (hresult : Skipped 0 result.toList) :
    Skipped 0 (Registry.functionName params result).toList := by
  have hin : ∀ text ∈ params.map String.toList, Skipped 0 text := by
    intro text htext
    obtain ⟨p, hp, rfl⟩ := List.mem_map.mp htext
    exact hparams p hp
  have harrow : Skipped 0 " => ".toList := .of_forall (forall_not_mem_of_all (by decide))
  have h := (Skipped.intercalate hin).parenthesised.append (harrow.append hresult)
  rw [toList_functionName]
  simpa only [List.cons_append, List.append_assoc, List.nil_append] using h

/-! ## Reading a function's key back -/

/-- The first parameter of a list in parentheses is what reading finds. -/
theorem upToComma_intercalate {first : List Char} (h : Skipped 0 first)
    (others : List (List Char)) (rest : List Char) :
    upToComma 0 ([',', ' '].intercalate (first :: others) ++ ')' :: rest) = first := by
  cases others with
  | nil => rw [List.intercalate_singleton, h 0 (Nat.le_refl 0), upToComma, List.append_nil]
  | cons next others =>
    rw [List.intercalate_cons_cons, List.append_assoc, List.append_assoc, h 0 (Nat.le_refl 0),
      List.cons_append, upToComma, List.append_nil]

/-- Lists of texts that read the same up to their closing parentheses are the same. -/
theorem intercalate_inj {ps qs : List (List Char)} {x y : List Char}
    (hps : ∀ p ∈ ps, p ≠ [] ∧ Skipped 0 p) (hqs : ∀ q ∈ qs, q ≠ [] ∧ Skipped 0 q)
    (h : [',', ' '].intercalate ps ++ ')' :: x = [',', ' '].intercalate qs ++ ')' :: y) :
    ps = qs ∧ x = y := by
  -- An empty list has nothing before the parenthesis, another one has its first text there.
  have hempty : ∀ {p : List Char} {others z w}, p ≠ [] → Skipped 0 p →
      [',', ' '].intercalate (p :: others) ++ ')' :: z ≠ ')' :: w := by
    intro p others z w hne hskip heq
    have hread := upToComma_intercalate hskip others z
    rw [heq, upToComma] at hread
    exact hne hread.symm
  induction ps generalizing qs with
  | nil =>
    cases qs with
    | nil => exact ⟨rfl, List.tail_eq_of_cons_eq h⟩
    | cons q qs =>
      obtain ⟨hne, hskip⟩ := hqs q List.mem_cons_self
      exact absurd h.symm (hempty hne hskip)
  | cons p ps ih =>
    obtain ⟨hne, hskip⟩ := hps p List.mem_cons_self
    cases qs with
    | nil => exact absurd h (hempty hne hskip)
    | cons q qs =>
      obtain rfl : p = q := by
        rw [← upToComma_intercalate hskip ps x, h,
          upToComma_intercalate (hqs q List.mem_cons_self).2]
      have hps' : ∀ t ∈ ps, t ≠ [] ∧ Skipped 0 t := fun t ht => hps t (List.mem_cons_of_mem p ht)
      have hqs' : ∀ t ∈ qs, t ≠ [] ∧ Skipped 0 t := fun t ht => hqs t (List.mem_cons_of_mem p ht)
      -- With the first texts gone, the next character says whether the lists go on.
      cases ps with
      | nil =>
        cases qs with
        | nil =>
          rw [List.intercalate_singleton] at h
          exact ⟨rfl, List.tail_eq_of_cons_eq (List.append_cancel_left h)⟩
        | cons next qs =>
          rw [List.intercalate_singleton, List.intercalate_cons_cons, List.append_assoc,
            List.append_assoc] at h
          exact absurd (List.head_eq_of_cons_eq (List.append_cancel_left h)) (by decide)
      | cons next ps =>
        cases qs with
        | nil =>
          rw [List.intercalate_singleton, List.intercalate_cons_cons, List.append_assoc,
            List.append_assoc] at h
          exact absurd (List.head_eq_of_cons_eq (List.append_cancel_left h)) (by decide)
        | cons next' qs =>
          rw [List.intercalate_cons_cons, List.intercalate_cons_cons, List.append_assoc,
            List.append_assoc, List.append_assoc, List.append_assoc] at h
          obtain ⟨htexts, hxy⟩ := ih hps' hqs'
            (List.append_cancel_left (List.append_cancel_left h))
          exact ⟨congrArg (p :: ·) htexts, hxy⟩

/-- Function types with the same key have the same keys for their parts. -/
theorem functionName_injective {params params' : List String} {result result' : String}
    (hps : ∀ p ∈ params, p.toList ≠ [] ∧ Skipped 0 p.toList)
    (hqs : ∀ p ∈ params', p.toList ≠ [] ∧ Skipped 0 p.toList)
    (h : Registry.functionName params result = Registry.functionName params' result') :
    params = params' ∧ result = result' := by
  have htexts := congrArg String.toList h
  rw [toList_functionName, toList_functionName] at htexts
  obtain ⟨hparams, hresult⟩ := intercalate_inj (by simpa using hps) (by simpa using hqs)
    (List.tail_eq_of_cons_eq htexts)
  exact ⟨List.map_injective_iff.mpr (fun _ _ => String.toList_inj.mp) hparams,
    String.toList_inj.mp (List.append_cancel_left hresult)⟩

end ObjectGraph
