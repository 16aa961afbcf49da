import Mathlib.Data.List.Basic
import ObjectGraph.Source.Lines

/-!
# Lines and columns are exact

A line table lists its starts in order, so that those at or before an offset are the first ones of
the list (`lt_length_takeWhile_iff`). One more of them than there are line feeds before the offset
(`length_takeWhile_starts`), and the last of them is the byte behind the last of those feeds
(`LineStart`). From this it follows that a position leads back to its offset, and that later offsets
have later positions.

Where starts, offsets, lines and columns are words of 32 bits, every access, sum and difference of
the look-up has to be looked at (`LineTable.wordPosition?`). Below the greatest word none of them
goes wrong, and the words are the numbers (`position_exact`).
-/

namespace ObjectGraph

/-! ## Line feeds and line starts -/

/-- The bytes of a text. -/
def bytesOf (text : String) : List UInt8 := text.toUTF8.data.toList

/-- The length of a text is the number of its bytes. -/
theorem length_bytesOf (text : String) : (bytesOf text).length = text.utf8ByteSize := rfl

/-- How many line feeds there are before an offset. Past the end of the text there are none. -/
def feedsBefore (bytes : List UInt8) (offset : ℕ) : ℕ := (bytes.take offset).count 10

/-- Where the line of an offset starts: behind the last line feed before the offset, or at zero. -/
structure LineStart (bytes : List UInt8) (offset start : ℕ) : Prop where
  /-- The line does not start behind the offset. -/
  le : start ≤ offset
  /-- It starts at zero or behind a line feed. -/
  behind : start = 0 ∨ ∃ i, start = i + 1 ∧ bytes[i]? = some 10
  /-- There is no line feed from its start to the offset. -/
  last : ∀ i, start ≤ i → i < offset → bytes[i]? ≠ some 10

variable {bytes : List UInt8} {base offset start : ℕ}

/-- Line feeds before an offset are bytes of the text. -/
theorem feedsBefore_le (bytes : List UInt8) (offset : ℕ) :
    feedsBefore bytes offset ≤ bytes.length := by
  calc feedsBefore bytes offset
      ≤ (bytes.take offset).length := List.count_le_length
    _ ≤ bytes.length := List.length_take_le' ..

/-- There are no fewer line feeds before a greater offset. -/
theorem feedsBefore_mono {a b : ℕ} (h : a ≤ b) : feedsBefore bytes a ≤ feedsBefore bytes b :=
  (List.take_sublist_take_left h).count_le 10

/-- The starts are the offsets behind line feeds. -/
theorem mem_startsAfterFeeds :
    start ∈ startsAfterFeeds bytes base ↔ ∃ i, start = base + i + 1 ∧ bytes[i]? = some 10 := by
  induction bytes generalizing base with
  | nil => simp [startsAfterFeeds]
  | cons b bytes ih =>
    have hshift (i : ℕ) : base + (i + 1) + 1 = base + 1 + i + 1 := by omega
    rw [startsAfterFeeds]
    constructor
    · intro h
      have hrest : (∃ i, start = base + 1 + i + 1 ∧ bytes[i]? = some 10) →
          ∃ i, start = base + i + 1 ∧ (b :: bytes)[i]? = some 10 := by
        rintro ⟨i, rfl, hi⟩
        exact ⟨i + 1, (hshift i).symm, hi⟩
      by_cases hb : b = 10
      · rw [if_pos hb] at h
        rcases List.mem_cons.mp h with rfl | h
        · exact ⟨0, rfl, congrArg some hb⟩
        · exact hrest (ih.mp h)
      · rw [if_neg hb] at h
        exact hrest (ih.mp h)
    · rintro ⟨i, rfl, hi⟩
      cases i with
      | zero =>
        rw [if_pos (Option.some.inj hi)]
        exact List.mem_cons_self
      | succ i =>
        have hmem : base + (i + 1) + 1 ∈ startsAfterFeeds bytes (base + 1) :=
          ih.mpr ⟨i, hshift i, hi⟩
        split
        · exact List.mem_cons_of_mem _ hmem
        · exact hmem

/-- The starts are listed in order, and none of them twice. -/
theorem pairwise_startsAfterFeeds (bytes : List UInt8) (base : ℕ) :
    (base :: startsAfterFeeds bytes base).Pairwise (· < ·) := by
  induction bytes generalizing base with
  | nil => exact List.pairwise_singleton _ _
  | cons b bytes ih =>
    apply List.Pairwise.cons
    · intro start hstart
      obtain ⟨i, rfl, -⟩ := mem_startsAfterFeeds.mp hstart
      omega
    · rw [startsAfterFeeds]
      split
      · exact ih (base + 1)
      · exact (ih (base + 1)).of_cons

/-! ## Counting starts -/

/-- In a list in order, the numbers up to a bound are the first ones. -/
theorem lt_length_takeWhile_iff {numbers : List ℕ} (h : numbers.Pairwise (· < ·)) {bound j n : ℕ}
    (hj : numbers[j]? = some n) : j < (numbers.takeWhile (· ≤ bound)).length ↔ n ≤ bound := by
  induction numbers generalizing j with
  | nil => cases hj
  | cons m numbers ih =>
    have hle : m ≤ n := by
      rcases List.mem_cons.mp (List.mem_of_getElem? hj) with rfl | hn
      · exact Nat.le_refl _
      · exact Nat.le_of_lt (List.rel_of_pairwise_cons h hn)
    by_cases hm : m ≤ bound
    · rw [List.takeWhile_cons_of_pos (by simpa using hm), List.length_cons]
      cases j with
      | zero =>
        obtain rfl := Option.some.inj hj
        exact iff_of_true (Nat.succ_pos _) hm
      | succ j => exact Nat.succ_lt_succ_iff.trans (ih h.of_cons hj)
    · -- The numbers after one that is greater are greater.
      rw [List.takeWhile_cons_of_neg (by simpa using hm), List.length_nil]
      omega

/-- As many starts are at or before an offset as there are line feeds before it. -/
theorem length_takeWhile_startsAfterFeeds (bytes : List UInt8) (base offset : ℕ) :
    ((startsAfterFeeds bytes base).takeWhile (· ≤ base + offset)).length =
      feedsBefore bytes offset := by
  unfold feedsBefore
  induction bytes generalizing base offset with
  | nil => simp [startsAfterFeeds]
  | cons b bytes ih =>
    cases offset with
    | zero =>
      -- All starts are behind the first byte.
      rw [List.take_zero, List.count_nil, List.length_eq_zero_iff]
      cases hstarts : startsAfterFeeds (b :: bytes) base with
      | nil => rfl
      | cons start starts =>
        obtain ⟨i, rfl, -⟩ := mem_startsAfterFeeds.mp (hstarts ▸ List.mem_cons_self)
        apply List.takeWhile_cons_of_neg
        simp only [decide_eq_true_eq]
        omega
    | succ offset =>
      have hbase : base + (offset + 1) = base + 1 + offset := by omega
      rw [List.take_succ_cons, List.count_cons, hbase, ← ih (base + 1) offset, startsAfterFeeds]
      by_cases hb : b = 10
      · rw [if_pos hb, List.takeWhile_cons_of_pos (by simp), List.length_cons, hb]
        rfl
      · rw [if_neg hb, if_neg (by simpa using hb)]
        rfl

/-! ## Positions of offsets -/

/-- A position comes before another if its line does, or its column on the same line. -/
def Position.Before (p q : Position) : Prop :=
  p.line < q.line ∨ p.line = q.line ∧ p.column < q.column

namespace LineTable

variable {text : String}

/-- The offset that a position stands for, if the table has its line. -/
def offsetOf? (table : LineTable) (p : Position) : Option ℕ :=
  table.starts[p.line - 1]?.map (· + (p.column - 1))

/-- The lines of a text start at zero and behind its line feeds. -/
theorem mem_starts_ofText :
    start ∈ (ofText text).starts ↔
      start = 0 ∨ ∃ i, start = i + 1 ∧ (bytesOf text)[i]? = some 10 := by
  change start ∈ 0 :: startsAfterFeeds (bytesOf text) 0 ↔ _
  rw [List.mem_cons, mem_startsAfterFeeds]
  simp only [Nat.zero_add]

/-- The starts of a text's lines are in order. -/
theorem pairwise_starts (text : String) : (ofText text).starts.Pairwise (· < ·) :=
  pairwise_startsAfterFeeds (bytesOf text) 0

/-- A line starts at the latest at the end of the text. -/
theorem le_of_mem_starts (h : start ∈ (ofText text).starts) : start ≤ text.utf8ByteSize := by
  rw [← length_bytesOf]
  rcases mem_starts_ofText.mp h with rfl | ⟨i, rfl, hi⟩
  · exact Nat.zero_le _
  · exact (List.getElem?_eq_some_iff.mp hi).1

/-- The lines up to that of an offset are one more than the line feeds before the offset. -/
theorem length_takeWhile_starts (text : String) (offset : ℕ) :
    ((ofText text).starts.takeWhile (· ≤ offset)).length =
      feedsBefore (bytesOf text) offset + 1 := by
  have hfeeds := length_takeWhile_startsAfterFeeds (bytesOf text) 0 offset
  rw [Nat.zero_add] at hfeeds
  change ((0 :: startsAfterFeeds (bytesOf text) 0).takeWhile (· ≤ offset)).length = _
  rw [List.takeWhile_cons_of_pos (by simp), List.length_cons, hfeeds]

/-- The last start up to an offset is that of the offset's line. -/
theorem exists_lineStart (text : String) (offset : ℕ) :
    ∃ start, (ofText text).starts[feedsBefore (bytesOf text) offset]? = some start ∧
      LineStart (bytesOf text) offset start := by
  have hsorted := pairwise_starts text
  have hcount := length_takeWhile_starts text offset
  have hlt : feedsBefore (bytesOf text) offset < (ofText text).starts.length := by
    have hle := (List.takeWhile_sublist (l := (ofText text).starts) (· ≤ offset)).length_le
    omega
  obtain ⟨start, hstart⟩ : ∃ start, (ofText text).starts[feedsBefore (bytesOf text) offset]? =
      some start := ⟨_, List.getElem?_eq_getElem hlt⟩
  have hle : start ≤ offset := by
    rw [← lt_length_takeWhile_iff hsorted hstart, hcount]
    omega
  refine ⟨start, hstart, hle, mem_starts_ofText.mp (List.mem_of_getElem? hstart), ?_⟩
  intro i hfrom hto hfeed
  -- Behind a later line feed there would be a later start, which would be counted too.
  obtain ⟨j, hj⟩ := List.mem_iff_getElem?.mp (mem_starts_ofText.mpr (.inr ⟨i, rfl, hfeed⟩))
  have hcounted := (lt_length_takeWhile_iff hsorted hj).mpr hto
  have hbefore := (lt_length_takeWhile_iff hsorted hstart).mpr hfrom
  have hnot := mt (lt_length_takeWhile_iff hsorted hj).mp (Nat.not_succ_le_self i)
  omega

/-- The position of an offset, by the start of its line. -/
theorem position_eq
    (hstart : (ofText text).starts[feedsBefore (bytesOf text) offset]? = some start) :
    (ofText text).position offset =
      ⟨1 + feedsBefore (bytesOf text) offset, 1 + (offset - start)⟩ := by
  unfold position
  rw [length_takeWhile_starts, Nat.add_sub_cancel]
  dsimp only
  rw [List.getD_eq_getElem?_getD, hstart, Option.getD_some, Nat.add_comm 1, Nat.add_comm 1]

/-- A position leads back to its offset. -/
theorem offsetOf?_position (text : String) (offset : ℕ) :
    (ofText text).offsetOf? ((ofText text).position offset) = some offset := by
  obtain ⟨start, hstart, hline⟩ := exists_lineStart text offset
  unfold offsetOf?
  rw [position_eq hstart]
  dsimp only
  rw [Nat.add_sub_cancel_left, Nat.add_sub_cancel_left, hstart, Option.map_some]
  exact congrArg some (Nat.add_sub_cancel' hline.le)

/-- A greater offset has a later position. -/
theorem position_before {a b : ℕ} (h : a < b) :
    ((ofText text).position a).Before ((ofText text).position b) := by
  obtain ⟨start, hstart, hline⟩ := exists_lineStart text a
  obtain ⟨start', hstart', hline'⟩ := exists_lineStart text b
  have hfeeds : feedsBefore (bytesOf text) a ≤ feedsBefore (bytesOf text) b :=
    feedsBefore_mono (Nat.le_of_lt h)
  rw [position_eq hstart, position_eq hstart']
  rcases Nat.eq_or_lt_of_le hfeeds with heq | hlt
  · -- On the same line both columns are counted from the same start.
    obtain rfl : start = start' := Option.some.inj (hstart.symm.trans (heq ▸ hstart'))
    have hle := hline.le
    right
    constructor
    · exact congrArg (1 + ·) heq
    · show 1 + (a - start) < 1 + (b - start)
      omega
  · left
    exact Nat.add_lt_add_left hlt 1

/-! ## Words -/

/-- The sum of two words, if it is one. -/
def addWords? (a b : UInt32) : Option UInt32 :=
  if a.toNat + b.toNat < UInt32.size then some (a + b) else none

/-- The difference of two words, if it is one. -/
def subWords? (a b : UInt32) : Option UInt32 := if b ≤ a then some (a - b) else none

/-- How many words of a list are up to a bound, if they are the first ones, and between `low` and
`high` of them. The range is halved until it is empty. -/
def halve (words : List UInt32) (bound : UInt32) (low high : ℕ) : ℕ :=
  if low < high then
    match words[(low + high) / 2]? with
    | some word =>
      if word ≤ bound then halve words bound ((low + high) / 2 + 1) high
      else halve words bound low ((low + high) / 2)
    | none => low
  else low
termination_by high - low

/-- The line and column of a byte offset, in words. A start that is not in the table, and a sum or a
difference that is not a word, give nothing. -/
def wordPosition? (table : LineTable) (offset : UInt32) : Option (UInt32 × UInt32) := do
  let words := table.starts.map (·.toUInt32)
  let line := halve words offset 0 words.length - 1
  let start ← words[line]?
  let distance ← subWords? offset start
  return (← addWords? line.toUInt32 1, ← addWords? distance 1)

/-- Halving finds how many words are up to the bound. -/
theorem halve_eq {words : List UInt32} {bound : UInt32} {count low high : ℕ}
    (hcount : ∀ j word, words[j]? = some word → (j < count ↔ word ≤ bound)) (hlow : low ≤ count)
    (hhigh : count ≤ high) (hlength : high ≤ words.length) :
    halve words bound low high = count := by
  fun_induction halve words bound low high with
  | case1 low high hlt word hword hle ih =>
    have hmid := (hcount _ word hword).mpr hle
    exact ih hmid hhigh hlength
  | case2 low high hlt word hword hgt ih =>
    have hmid := mt (hcount _ word hword).mp hgt
    apply ih hlow
    · omega
    · omega
  | case3 low high hlt hnone =>
    rw [List.getElem?_eq_none_iff] at hnone
    omega
  | case4 low high hge => omega

/-- A sum that is a word is found. -/
theorem addWords?_of_lt {a b : UInt32} (h : a.toNat + b.toNat < UInt32.size) :
    addWords? a b = some (a + b) ∧ (a + b).toNat = a.toNat + b.toNat :=
  ⟨if_pos h, (UInt32.toNat_add a b).trans (Nat.mod_eq_of_lt h)⟩

/-- The difference to a word that is no greater is found. -/
theorem subWords?_of_le {a b : UInt32} (h : b ≤ a) :
    subWords? a b = some (a - b) ∧ (a - b).toNat = a.toNat - b.toNat :=
  ⟨if_pos h, UInt32.toNat_sub_of_le a b h⟩

/-- The starts of a text's lines are words. -/
theorem toNat_of_mem_starts (htext : text.utf8ByteSize < UInt32.size - 1)
    (h : start ∈ (ofText text).starts) : start.toUInt32.toNat = start := by
  have hle := le_of_mem_starts h
  exact UInt32.toNat_ofNat_of_lt' (by omega)

/-- Halving the table finds the lines up to that of an offset. -/
theorem halve_starts (htext : text.utf8ByteSize < UInt32.size - 1) (offset : UInt32) :
    let words := (ofText text).starts.map (·.toUInt32)
    halve words offset 0 words.length = feedsBefore (bytesOf text) offset.toNat + 1 := by
  intro words
  have hcounted := length_takeWhile_starts text offset.toNat
  apply halve_eq
  · intro j word hword
    rw [List.getElem?_map] at hword
    obtain ⟨start, hstart, rfl⟩ := Option.map_eq_some_iff.mp hword
    rw [UInt32.le_iff_toNat_le, toNat_of_mem_starts htext (List.mem_of_getElem? hstart),
      ← hcounted]
    exact lt_length_takeWhile_iff (pairwise_starts text) hstart
  · exact Nat.zero_le _
  · rw [← hcounted, List.length_map]
    exact (List.takeWhile_sublist _).length_le
  · exact Nat.le_refl _

/-- Below the greatest word the look-up in words finds the position. -/
theorem wordPosition?_ofText (htext : text.utf8ByteSize < UInt32.size - 1) {offset : UInt32}
    (hoffset : offset.toNat < UInt32.size - 1) :
    ∃ line column : UInt32, (ofText text).wordPosition? offset = some (line, column) ∧
      (ofText text).position offset.toNat = ⟨line.toNat, column.toNat⟩ := by
  obtain ⟨start, hstart, hfrom⟩ := exists_lineStart text offset.toNat
  have hhalve := halve_starts htext offset
  have hbound : feedsBefore (bytesOf text) offset.toNat < UInt32.size - 1 :=
    Nat.lt_of_le_of_lt (feedsBefore_le _ _) (length_bytesOf text ▸ htext)
  rw [position_eq hstart]
  generalize feedsBefore (bytesOf text) offset.toNat = feeds at *
  have hword := toNat_of_mem_starts htext (List.mem_of_getElem? hstart)
  have hle : start.toUInt32 ≤ offset := by
    rw [UInt32.le_iff_toNat_le, hword]
    exact hfrom.le
  have hfeeds : feeds.toUInt32.toNat = feeds := by
    exact UInt32.toNat_ofNat_of_lt' (by omega)
  have hone : (1 : UInt32).toNat = 1 := rfl
  -- The three steps of the arithmetic, each of which stays among the words.
  obtain ⟨hdistance, hdistance'⟩ := subWords?_of_le hle
  obtain ⟨hline, hline'⟩ := addWords?_of_lt (a := feeds.toUInt32) (b := 1) (by omega)
  obtain ⟨hcolumn, hcolumn'⟩ :=
    addWords?_of_lt (a := offset - start.toUInt32) (b := 1) (by omega)
  refine ⟨feeds.toUInt32 + 1, offset - start.toUInt32 + 1, ?_, ?_⟩
  · unfold wordPosition?
    dsimp only
    rw [hhalve, Nat.add_sub_cancel, List.getElem?_map, hstart]
    simp [hdistance, hline, hcolumn]
  · rw [hline', hcolumn', hdistance', hfeeds, hword, hone, Nat.add_comm 1 feeds,
      Nat.add_comm 1 (offset.toNat - start)]

/-- **Lines and columns are exact.** An offset is on the line after all line feeds before it, and
its column counts from the byte behind the last of them. The position leads back to the offset, and
greater offsets have later positions. For texts and offsets below the greatest word no start is cut
off as a word, the look-up in words gives the same, and none of its steps fails. -/
theorem position_exact (text : String) :
    (∀ offset, ∃ start, LineStart (bytesOf text) offset start ∧
      (ofText text).position offset =
        ⟨1 + feedsBefore (bytesOf text) offset, 1 + (offset - start)⟩) ∧
    (∀ offset, (ofText text).offsetOf? ((ofText text).position offset) = some offset) ∧
    (∀ a b, a < b → ((ofText text).position a).Before ((ofText text).position b)) ∧
    (text.utf8ByteSize < UInt32.size - 1 →
      (∀ start ∈ (ofText text).starts, start.toUInt32.toNat = start) ∧
      ∀ offset : UInt32, offset.toNat < UInt32.size - 1 →
        ∃ line column : UInt32, (ofText text).wordPosition? offset = some (line, column) ∧
          (ofText text).position offset.toNat = ⟨line.toNat, column.toNat⟩) := by
  refine ⟨fun offset => ?_, offsetOf?_position text, fun a b => position_before, fun htext =>
    ⟨fun start => toNat_of_mem_starts htext, fun offset => wordPosition?_ofText htext⟩⟩
  obtain ⟨start, hstart, hline⟩ := exists_lineStart text offset
  exact ⟨start, hline, position_eq hstart⟩

/-- Two lines with an empty line between them. The second character of the last line is in column
two of the third line, also for words, and comes before an offset far behind the end. -/
theorem position_exact_threeLines :
    let table := ofText "one\n\ntwo"
    (∃ line column : UInt32, table.wordPosition? 6 = some (line, column) ∧
      line.toNat = 3 ∧ column.toNat = 2) ∧
    table.offsetOf? ⟨3, 2⟩ = some 6 ∧ Position.Before ⟨3, 2⟩ (table.position 1000) := by
  intro table
  have hposition : table.position 6 = ⟨3, 2⟩ := by decide +kernel
  obtain ⟨-, hback, hbefore, hwords⟩ := position_exact "one\n\ntwo"
  obtain ⟨-, hfinds⟩ := hwords (by decide +kernel)
  obtain ⟨line, column, hfound, hsame⟩ := hfinds 6 (by decide)
  have hnumbers : (⟨3, 2⟩ : Position) = ⟨line.toNat, column.toNat⟩ := hposition.symm.trans hsame
  refine ⟨⟨line, column, hfound, ?_, ?_⟩, ?_, ?_⟩
  · exact (congrArg Position.line hnumbers).symm
  · exact (congrArg Position.column hnumbers).symm
  · rw [← hposition]
    exact hback 6
  · rw [← hposition]
    exact hbefore 6 1000 (by decide)

end LineTable

end ObjectGraph
