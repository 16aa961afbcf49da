import Mathlib.Data.List.Basic
import ObjectGraph.Check.Report

/-!
# Places in reports

A span counts bytes, and the place in a drawing counts characters. The span of a type error is taken
for a range of characters as it is. So the drawing names and underlines what the span means if every
character up to the end of the span takes one byte, and otherwise it does not
(`TypeError.points_iff_narrow`).

What a span means is a `Passage`: characters in a row of the text, with what is before and after
them. Passages are found again among the numbered rows (`Passage.In.holding?_eq`), and a row is
known by its number (`Row.eq_of_index`).
-/

namespace ObjectGraph

/-! ## Bytes -/

/-- The number of bytes that characters take. -/
def byteLength : List Char → ℕ
  | [] => 0
  | c :: cs => c.utf8Size + byteLength cs

section Bytes

variable {cs : List Char}

/-- One text after the other. -/
theorem byteLength_append (cs ds : List Char) :
    byteLength (cs ++ ds) = byteLength cs + byteLength ds := by
  induction cs with
  | nil => exact (Nat.zero_add _).symm
  | cons c cs ih => rw [List.cons_append, byteLength, ih, byteLength, Nat.add_assoc]

/-- Each character takes at least one byte. -/
theorem length_le_byteLength (cs : List Char) : cs.length ≤ byteLength cs := by
  induction cs with
  | nil => exact Nat.le_refl 0
  | cons c cs ih =>
    have hpos := c.utf8Size_pos
    rw [byteLength, List.length_cons]
    omega

/-- There are as many bytes as characters if each character takes one byte. -/
theorem byteLength_eq_length_iff : byteLength cs = cs.length ↔ ∀ c ∈ cs, c.utf8Size = 1 := by
  induction cs with
  | nil => exact iff_of_true rfl (List.forall_mem_nil _)
  | cons c cs ih =>
    have hpos := c.utf8Size_pos
    have hle := length_le_byteLength cs
    rw [byteLength, List.length_cons, List.forall_mem_cons, ← ih]
    omega

/-- The bytes of a text are those of its characters. -/
theorem byteLength_toList (s : String) : byteLength s.toList = s.utf8ByteSize := by
  have hofList : ∀ cs : List Char, byteLength cs = (String.ofList cs).utf8ByteSize := by
    intro cs
    induction cs with
    | nil => rfl
    | cons c cs ih =>
      have hsplit : String.ofList (c :: cs) = String.singleton c ++ String.ofList cs := by
        rw [String.singleton_eq_ofList, ← String.ofList_append]
        rfl
      rw [byteLength, ih, hsplit, String.utf8ByteSize_append, String.utf8ByteSize_singleton]
  rw [hofList, String.ofList_toList]

end Bytes

/-! ## Numbered rows -/

namespace Row

variable {r : Row} {i s : ℕ} {row : List Char} {above below rows : List (List Char)}

/-- A row among others comes after as many rows and characters as are above it. -/
theorem number_append (i s : ℕ) (above : List (List Char)) (row : List Char)
    (below : List (List Char)) :
    number i s (above ++ row :: below) =
      number i s above ++ ⟨i + above.length, s + above.flatten.length, row⟩ ::
        number (i + above.length + 1) (s + above.flatten.length + row.length) below := by
  induction above generalizing i s with
  | nil => rfl
  | cons first above ih =>
    rw [List.cons_append, number, ih, number, List.cons_append, List.flatten_cons,
      List.length_append, List.length_cons]
    have hi : i + 1 + above.length = i + (above.length + 1) := by omega
    rw [hi, Nat.add_assoc s]

/-- Rows come after those above them. -/
theorem le_of_mem_number (h : r ∈ number i s rows) : i ≤ r.index ∧ s ≤ r.start := by
  induction rows generalizing i s with
  | nil => cases h
  | cons first rows ih =>
    rcases List.mem_cons.mp h with rfl | h
    · exact ⟨Nat.le_refl _, Nat.le_refl _⟩
    · obtain ⟨hi, hs⟩ := ih h
      omega

/-- Rows come before those below them. -/
theorem lt_of_mem_number (h : r ∈ number i s rows) :
    r.index < i + rows.length ∧ r.start ≤ s + rows.flatten.length := by
  induction rows generalizing i s with
  | nil => cases h
  | cons first rows ih =>
    rw [List.length_cons, List.flatten_cons, List.length_append]
    rcases List.mem_cons.mp h with rfl | h
    · exact ⟨by show i < _; omega, by show s ≤ _; omega⟩
    · obtain ⟨hi, hs⟩ := ih h
      omega

/-- A row is known by its number. -/
theorem eq_of_index (h : r ∈ number 0 0 (above ++ row :: below)) (hindex : r.index = above.length) :
    r = ⟨above.length, above.flatten.length, row⟩ := by
  rw [number_append, Nat.zero_add, Nat.zero_add] at h
  rcases List.mem_append.mp h with h | h
  · have hlt := (lt_of_mem_number h).1
    omega
  rcases List.mem_cons.mp h with rfl | h
  · rfl
  · have hle := (le_of_mem_number h).1
    omega

end Row

/-! ## Passages -/

/-- Characters in a row of a text, with what is around them. -/
structure Passage where
  /-- The rows above. -/
  above : List (List Char)
  /-- The characters before them in their row. -/
  before : List Char
  /-- The characters themselves. -/
  marked : List Char
  /-- The characters after them in their row. -/
  after : List Char
  /-- The rows below. -/
  below : List (List Char)

namespace Passage

/-- The row. -/
def row (p : Passage) : List Char := p.before ++ p.marked ++ p.after

/-- All that comes before. -/
def lead (p : Passage) : List Char := p.above.flatten ++ p.before

/-- The passage is one of the text, and is not empty. -/
structure In (p : Passage) (text : List Char) : Prop where
  /-- The text has the passage's rows. -/
  rows : splitRows text = p.above ++ p.row :: p.below
  /-- There is something in the passage. -/
  marked : p.marked ≠ []

/-- The range of bytes that the passage takes. -/
def span (p : Passage) : Span :=
  ⟨byteLength p.lead, byteLength p.lead + byteLength p.marked⟩

/-- The place of the passage in a drawing. -/
def excerpt (p : Passage) : Excerpt :=
  ⟨⟨p.above.length, p.above.flatten.length, p.row⟩, p.before.length, p.marked.length⟩

/-- Every character takes one byte, up to the end of the passage. -/
def Narrow (p : Passage) : Prop := ∀ c ∈ p.lead ++ p.marked, c.utf8Size = 1

/-- The place in a drawing has the line and the column of the passage, and underlines its characters
and nothing else. -/
structure IsShownBy (p : Passage) (e : Excerpt) : Prop where
  /-- The line is that of the first character. -/
  line : e.line = p.above.length + 1
  /-- So is the column. -/
  column : e.column + 1 = p.before.length + 1
  /-- The place ends in the row. -/
  within : e.isWithinRow = true
  /-- What is underlined is the passage. -/
  underlined : e.underlined = p.marked

variable {p : Passage} {text : List Char}

/-- What comes before the passage, in characters. -/
theorem length_lead (p : Passage) : p.lead.length = p.above.flatten.length + p.before.length := by
  rw [lead, List.length_append]

/-- The row of the passage, in characters. -/
theorem length_row (p : Passage) :
    p.row.length = p.before.length + p.marked.length + p.after.length := by
  rw [row, List.length_append, List.length_append]

/-- Up to the end of a narrow passage there are as many bytes as characters, and only there. -/
theorem narrow_iff :
    p.Narrow ↔
      byteLength p.lead = p.lead.length ∧ byteLength p.marked = p.marked.length := by
  have hlead := length_le_byteLength p.lead
  have hmarked := length_le_byteLength p.marked
  unfold Narrow
  rw [← byteLength_eq_length_iff, byteLength_append, List.length_append]
  omega

/-- The text consists of the passage, what comes before and what comes after. -/
theorem In.text_eq (h : p.In text) : text = p.lead ++ p.marked ++ (p.after ++ p.below.flatten) := by
  calc text = (splitRows text).flatten := (flatten_splitRows text).symm
    _ = (p.above ++ p.row :: p.below).flatten := by rw [h.rows]
    _ = p.lead ++ p.marked ++ (p.after ++ p.below.flatten) := by
      simp only [List.flatten_append, List.flatten_cons, lead, row, List.append_assoc]

/-- The rows of the text are numbered from the first one on. -/
theorem In.ofText_eq (h : p.In text) :
    Row.ofText text = Row.number 0 0 (p.above ++ p.row :: p.below) := by
  have hsome : text.isEmpty = false := by
    rw [List.isEmpty_eq_false_iff, h.text_eq]
    simp [h.marked]
  rw [Row.ofText, hsome, h.rows]
  rfl

/-- The row of the passage holds its characters. -/
theorem In.holding?_eq (h : p.In text) {index : ℕ} (hle : p.above.flatten.length ≤ index)
    (hlt : index < p.above.flatten.length + p.row.length) :
    Row.holding? text index = some p.excerpt.row := by
  have hinside : index ≤ text.length := by
    have hlength := congrArg List.length h.text_eq
    have hlead := p.length_lead
    have hrow := p.length_row
    simp only [List.length_append] at hlength
    omega
  -- The rows above start before it, and those below start after it.
  have habove : ∀ r ∈ Row.number 0 0 p.above, decide (r.start ≤ index) = true := by
    intro r hr
    have hstart := (Row.lt_of_mem_number hr).2
    exact decide_eq_true (by omega)
  have hbelow : (Row.number (p.above.length + 1) (p.above.flatten.length + p.row.length)
      p.below).takeWhile (·.start ≤ index) = [] := by
    cases p.below with
    | nil => rfl
    | cons row rows =>
      have hstart : ¬ p.above.flatten.length + p.row.length ≤ index := by omega
      rw [Row.number, List.takeWhile_cons_of_neg (by simpa using hstart)]
  rw [Row.holding?, if_pos hinside, h.ofText_eq, Row.number_append, Nat.zero_add, Nat.zero_add,
    List.takeWhile_append_of_pos habove, List.takeWhile_cons_of_pos, hbelow, List.getLast?_concat]
  · rfl
  · exact decide_eq_true hle

/-- Counted in characters, the range of the passage is its place. -/
theorem In.ofRange?_eq (h : p.In text) :
    Excerpt.ofRange? text p.lead.length (p.lead.length + p.marked.length) = some p.excerpt := by
  have hlength := congrArg List.length h.text_eq
  have hmarked := List.length_pos_iff.mpr h.marked
  have hlead := p.length_lead
  have hrow := p.length_row
  simp only [List.length_append] at hlength
  have hstop : p.lead.length + p.marked.length ≤ max p.lead.length (text.length + 1) := by omega
  rw [Excerpt.ofRange?, if_pos hstop, h.holding?_eq (by omega) (by omega), Option.map_some]
  have hcolumn : p.lead.length - p.above.flatten.length = p.before.length := by omega
  have hwidth : p.lead.length + p.marked.length - p.lead.length = p.marked.length := by omega
  show some (Excerpt.mk _ (p.lead.length - p.above.flatten.length) _) = _
  rw [hcolumn, hwidth]
  rfl

/-- The place of the passage shows it. -/
theorem isShownBy_excerpt (p : Passage) : p.IsShownBy p.excerpt where
  line := rfl
  column := rfl
  within := by
    have hrow := p.length_row
    exact decide_eq_true (show p.before.length + p.marked.length ≤ p.row.length by omega)
  underlined := by
    show (p.row.drop p.before.length).take p.marked.length = p.marked
    rw [row, List.append_assoc, List.drop_left, List.take_left]

/-- A range of characters that takes the passage's bytes for its ends shows the passage only if
these are as many. -/
theorem In.narrow_of_isShownBy (h : p.In text) {e : Excerpt}
    (hplace : Excerpt.ofRange? text p.span.start p.span.stop = some e) (hshown : p.IsShownBy e) :
    p.Narrow := by
  rw [Excerpt.ofRange?] at hplace
  split at hplace
  case isFalse => cases hplace
  obtain ⟨row, hholding, rfl⟩ := Option.map_eq_some_iff.mp hplace
  -- The row is that of the passage, since it has the same number.
  have hrow : row = ⟨p.above.length, p.above.flatten.length, p.row⟩ := by
    rw [Row.holding?] at hholding
    split at hholding
    case isFalse => cases hholding
    have hmem := (List.takeWhile_sublist _).subset (List.mem_of_getLast? hholding)
    rw [h.ofText_eq] at hmem
    exact Row.eq_of_index hmem (Nat.succ.inj hshown.line)
  subst hrow
  -- What the place counts as characters are bytes, of which there are no fewer.
  have hcolumn : byteLength p.lead - p.above.flatten.length = p.before.length :=
    Nat.succ.inj hshown.column
  have hwithin : byteLength p.lead - p.above.flatten.length + (p.span.stop - p.span.start) ≤
      p.row.length := of_decide_eq_true hshown.within
  have hwidth : min (p.span.stop - p.span.start)
      (p.row.length - (byteLength p.lead - p.above.flatten.length)) = p.marked.length := by
    rw [← List.length_drop, ← List.length_take]
    exact congrArg List.length hshown.underlined
  have hspan : p.span.stop - p.span.start = byteLength p.marked :=
    Nat.add_sub_cancel_left ..
  have hbytes := length_le_byteLength p.lead
  have hlead := p.length_lead
  exact narrow_iff.mpr ⟨by omega, by omega⟩

/-! ## Line feeds -/

/-- Where only line feeds separate rows, each row above ends with the only one that it has, and no
row has one before its end. -/
theorem count_lineFeed_of_splitRows (hfeeds : ∀ c ∈ text, isRowSeparator c = true → c = '\n')
    {above below : List (List Char)} {row : List Char}
    (hrows : splitRows text = above ++ row :: below) :
    above.flatten.count '\n' = above.length ∧ '\n' ∉ row.dropLast := by
  fun_induction splitRows text generalizing above row with
  | case1 => cases above <;> cases hrows
  | case2 rest ih => exact absurd (hfeeds '\r' List.mem_cons_self rfl) (by decide)
  | case3 c rest _ hsep ih =>
    obtain rfl := hfeeds c List.mem_cons_self hsep
    cases above with
    | nil =>
      obtain ⟨rfl, -⟩ := List.cons.inj hrows
      exact ⟨rfl, List.not_mem_nil⟩
    | cons first above =>
      obtain ⟨rfl, hrest⟩ := List.cons.inj hrows
      obtain ⟨hcount, hrow⟩ := ih (fun c hc => hfeeds c (List.mem_cons_of_mem _ hc)) hrest
      refine ⟨?_, hrow⟩
      rw [List.flatten_cons, List.count_append, hcount, List.length_cons, Nat.add_comm]
      rfl
  | case4 c rest _ hsep hnone ih =>
    cases above with
    | nil =>
      obtain ⟨rfl, -⟩ := List.cons.inj hrows
      exact ⟨rfl, List.not_mem_nil⟩
    | cons first above =>
      obtain ⟨-, hrest⟩ := List.cons.inj hrows
      cases above <;> cases hrest
  | case5 c rest _ hsep first' rows hsome ih =>
    -- The character is put before the first row.
    have hne : c ≠ '\n' := by
      rintro rfl
      exact hsep rfl
    have hfeeds' : ∀ c ∈ rest, isRowSeparator c = true → c = '\n' :=
      fun c hc => hfeeds c (List.mem_cons_of_mem _ hc)
    cases above with
    | nil =>
      obtain ⟨rfl, rfl⟩ := List.cons.inj hrows
      obtain ⟨-, hrow⟩ := ih hfeeds' (show splitRows rest = [] ++ first' :: rows from hsome)
      refine ⟨rfl, ?_⟩
      cases first' with
      | nil => exact List.not_mem_nil
      | cons d ds =>
        rw [List.dropLast_cons_of_ne_nil (List.cons_ne_nil d ds), List.mem_cons, not_or]
        exact ⟨hne.symm, hrow⟩
    | cons first above =>
      obtain ⟨rfl, hrest⟩ := List.cons.inj hrows
      obtain ⟨hcount, hrow⟩ := ih hfeeds'
        (show splitRows rest = (first' :: above) ++ row :: below by rw [hsome, hrest]; rfl)
      refine ⟨?_, hrow⟩
      rw [List.flatten_cons, List.count_append] at hcount ⊢
      rw [List.count_cons_of_ne hne, hcount]
      rfl

/-- Where only line feeds separate rows, the line of a passage is known from the line feeds before
it, and its column from the characters after the last one. -/
theorem In.lineFeeds (h : p.In text) (hfeeds : ∀ c ∈ text, isRowSeparator c = true → c = '\n') :
    p.lead.count '\n' = p.above.length ∧ '\n' ∉ p.before := by
  obtain ⟨hcount, hrow⟩ := count_lineFeed_of_splitRows hfeeds h.rows
  have hbefore : '\n' ∉ p.before := by
    have hne : p.marked ++ p.after ≠ [] := by simp [h.marked]
    rw [row, List.append_assoc, List.dropLast_append_of_ne_nil hne] at hrow
    exact fun hmem => hrow (List.mem_append_left _ hmem)
  refine ⟨?_, hbefore⟩
  rw [lead, List.count_append, hcount, List.count_eq_zero_of_not_mem hbefore, Nat.add_zero]

end Passage

/-! ## Reports -/

/-- Under a character of an underlined row there is a sign if and only if the character is
underlined. -/
theorem Drawing.underline_head_ne (e : Excerpt) (hwidth : 0 < e.width) (i : ℕ) :
    (underline e i).head ≠ ' ' ↔ e.column ≤ i ∧ i < e.column + e.width := by
  unfold underline
  split
  · rename_i hstem
    -- The stem is one of the underlined characters.
    have hi : e.column ≤ i ∧ i < e.column + e.width := by
      rw [hstem, Excerpt.stem]
      omega
    rw [if_neg (Nat.ne_of_gt hwidth)]
    exact iff_of_true (by decide) hi
  · split
    · rename_i hi
      exact iff_of_true (by decide) hi
    · rename_i hi
      exact iff_of_false (by decide) hi

namespace TypeError

variable {error : TypeError} {source : String} {p : Passage}

/-- The place that a report shows. -/
def place? (error : TypeError) (source : String) : Option Excerpt :=
  let span := error.location.span.clamp source.utf8ByteSize
  Excerpt.ofRange? source.toList span.start span.stop

/-- The lines of a report that shows a place. -/
theorem toText_eq {e : Excerpt} (h : error.place? source = some e) :
    error.toText source = String.join ((s!"[{error.code}] Error: {error.message}" ::
      Drawing.lines error.label error.suggestion e).map (· ++ "\n")) := by
  show String.join ((_ :: (error.place? source).elim [] _).map (· ++ "\n")) = _
  rw [h]
  rfl

/-- The span of a passage is not clamped. -/
theorem place?_eq (hp : p.In source.toList) (hspan : error.location.span = p.span) :
    error.place? source = Excerpt.ofRange? source.toList p.span.start p.span.stop := by
  have hbytes := congrArg byteLength hp.text_eq
  have hmarked := List.length_pos_iff.mpr hp.marked
  have hle := length_le_byteLength p.marked
  simp only [byteLength_append, byteLength_toList] at hbytes
  have hlt : p.span.start < p.span.stop := by
    show byteLength p.lead < byteLength p.lead + byteLength p.marked
    omega
  have hstop : p.span.stop ≤ source.utf8ByteSize := by
    show byteLength p.lead + byteLength p.marked ≤ source.utf8ByteSize
    omega
  rw [place?, hspan, Span.clamp_of_lt hlt hstop]

/-- **Where a report points.** For an error whose span is that of a passage in one row of the
source, the report shows the passage if and only if every character up to its end takes one byte.
Then the header names the line and the column of the passage, and there are signs under its
characters and under no others. Where only line feeds separate rows, the lines are counted by
them. -/
theorem points_iff_narrow (hp : p.In source.toList) (hspan : error.location.span = p.span) :
    ((∃ e, error.place? source = some e ∧ p.IsShownBy e) ↔ p.Narrow) ∧
      (p.Narrow →
        error.toText source = String.join ((s!"[{error.code}] Error: {error.message}" ::
          Drawing.lines error.label error.suggestion p.excerpt).map (· ++ "\n")) ∧
        (∃ gutter others, Drawing.lines error.label error.suggestion p.excerpt =
          (gutter ++ s!"╭─[ <unknown>:{p.above.length + 1}:{p.before.length + 1} ]") :: others) ∧
        ∀ i, (Drawing.underline p.excerpt i).head ≠ ' ' ↔
          p.before.length ≤ i ∧ i < p.before.length + p.marked.length) ∧
      ((∀ c ∈ source.toList, isRowSeparator c = true → c = '\n') →
        p.lead.count '\n' = p.above.length ∧ '\n' ∉ p.before) := by
  have hplace := place?_eq hp hspan
  have hnarrow (h : p.Narrow) : error.place? source = some p.excerpt := by
    obtain ⟨hlead, hmarked⟩ := Passage.narrow_iff.mp h
    rw [hplace, ← hp.ofRange?_eq, ← hlead, ← hmarked]
    rfl
  refine ⟨⟨?_, fun h => ⟨p.excerpt, hnarrow h, p.isShownBy_excerpt⟩⟩, fun h => ?_, hp.lineFeeds⟩
  · rintro ⟨e, he, hshown⟩
    exact hp.narrow_of_isShownBy (hplace ▸ he) hshown
  · exact ⟨toText_eq (hnarrow h), ⟨_, _, rfl⟩,
      Drawing.underline_head_ne p.excerpt (List.length_pos_iff.mpr hp.marked)⟩

/-- The name `Strng` in the second row of a text. -/
def strng : Passage where
  above := [['a', '\n']]
  before := ['x', ':', ' ']
  marked := ['S', 't', 'r', 'n', 'g']
  after := ['\n']
  below := []

/-- The report of a name in the second row shows the name, in line 2 and column 4. -/
theorem points_iff_narrow_strng :
    (∃ e, (unknownType "Strng" ⟨none, ⟨5, 10⟩⟩).place? "a\nx: Strng\n" = some e ∧
        strng.IsShownBy e) ∧
      ∃ gutter others, Drawing.lines "not found in this scope"
          (some "declare `class Strng` or check the spelling") strng.excerpt =
        (gutter ++ "╭─[ <unknown>:2:4 ]") :: others := by
  have hin : strng.In "a\nx: Strng\n".toList := ⟨by decide +kernel, by decide⟩
  have hnarrow : strng.Narrow := Passage.narrow_iff.mpr ⟨by decide, by decide⟩
  have hspan : (unknownType "Strng" ⟨none, ⟨5, 10⟩⟩).location.span = strng.span := by decide +kernel
  obtain ⟨hshown, hreport, -⟩ := points_iff_narrow hin hspan
  obtain ⟨-, hlines, -⟩ := hreport hnarrow
  exact ⟨hshown.mpr hnarrow, hlines⟩

/-- The name `Strng` after a character of two bytes. -/
def strngAfterAccent : Passage where
  above := []
  before := ['é', ' ']
  marked := ['S', 't', 'r', 'n', 'g']
  after := [' ', '=', ' ', '1']
  below := []

/-- The span of a name after a character of two bytes is taken for the range that begins one
character later: the report names column 4 and not 3, and underlines `trng` and a space. -/
theorem points_past_accent :
    strngAfterAccent.In "é Strng = 1".toList ∧
      (unknownType "Strng" ⟨none, ⟨3, 8⟩⟩).location.span = strngAfterAccent.span ∧
      (∃ e, (unknownType "Strng" ⟨none, ⟨3, 8⟩⟩).place? "é Strng = 1" = some e ∧
        e.underlined = ['t', 'r', 'n', 'g', ' '] ∧ ¬ strngAfterAccent.IsShownBy e) ∧
      (unknownType "Strng" ⟨none, ⟨3, 8⟩⟩).toText "é Strng = 1" =
        String.join ([
          "[E0002] Error: unknown type `Strng`",
          "   ╭─[ <unknown>:1:4 ]",
          "   │",
          " 1 │ é Strng = 1",
          "   │    ──┬──  ",
          "   │      ╰──── not found in this scope",
          "   │ ",
          "   │ Help: declare `class Strng` or check the spelling",
          "───╯"].map (· ++ "\n")) := by
  refine ⟨⟨by decide +kernel, by decide⟩, by decide +kernel, ?_, by decide +kernel⟩
  refine ⟨⟨⟨0, 0, "é Strng = 1".toList⟩, 3, 5⟩, by decide +kernel, by decide +kernel, ?_⟩
  intro hshown
  exact absurd hshown.column (by decide)

end TypeError

end ObjectGraph
