import Mathlib.Data.List.Induction
import Chip8VM.Proofs.MemoryTable
import Chip8VM.Proofs.Numerals

/-!
# Reading tables back

The text of a table determines its entries.  A table of numbers has a length that
depends on how many there are, and is read by position.  The memory table has as
many rows as the zeros leave, so that nothing in front of it stands at a known
place; it is read from its end, where the row that begins at address zero is the
first one.
-/

namespace Chip8VM.Dump

/-! ## Lines -/

@[simp] theorem lines_singleton (row : List Char) : lines [row] = row := by
  simp [lines]

theorem lines_cons {rows : List (List Char)} (row : List Char) (h : rows ≠ []) :
    lines (row :: rows) = row ++ '\n' :: lines rows := by
  obtain ⟨next, later, rfl⟩ := List.exists_cons_of_ne_nil h
  simp [lines]

theorem lines_append_newline {rows : List (List Char)} (h : rows ≠ []) :
    lines rows ++ ['\n'] = rows.flatMap fun row => row ++ ['\n'] := by
  induction rows with
  | nil => exact absurd rfl h
  | cons row rows ih =>
      rcases eq_or_ne rows [] with rfl | hrows
      · simp
      · rw [lines_cons row hrows, List.append_assoc, List.cons_append, ih hrows]
        simp

theorem append_separator_inj {separator : Char} {front front' rest rest' : List Char}
    (hfront : separator ∉ front) (hfront' : separator ∉ front')
    (h : front ++ separator :: rest = front' ++ separator :: rest') :
    front = front' ∧ rest = rest' := by
  have hread : ∀ {front rest : List Char}, separator ∉ front →
      (front ++ separator :: rest).takeWhile (· ≠ separator) = front := by
    intro front rest hnone
    have hbefore : ∀ c ∈ front, decide (c ≠ separator) = true := by
      intro c hc
      exact decide_eq_true fun hsame => hnone (hsame ▸ hc)
    rw [List.takeWhile_append_of_pos hbefore]
    simp
  have hsame : front = front' := by
    rw [← hread hfront, h, hread hfront']
  subst hsame
  exact ⟨rfl, (List.cons.inj (List.append_cancel_left h)).2⟩

theorem lines_inj {rows rows' : List (List Char)}
    (hlengths : rows.map List.length = rows'.map List.length) :
    (lines rows).length = (lines rows').length ∧ (lines rows = lines rows' → rows = rows') := by
  induction rows generalizing rows' with
  | nil =>
      obtain rfl : rows' = [] := by simpa using hlengths.symm
      exact ⟨rfl, fun _ => rfl⟩
  | cons row rows ih =>
      obtain ⟨row', rows', rfl⟩ : ∃ row' later, rows' = row' :: later := by
        cases rows' with
        | nil => simp at hlengths
        | cons row' later => exact ⟨row', later, rfl⟩
      obtain ⟨hrow, hrows⟩ := List.cons.inj hlengths
      obtain ⟨hlength, hinj⟩ := ih hrows
      rcases eq_or_ne rows [] with rfl | hsome
      · obtain rfl : rows' = [] := by simpa using hrows.symm
        simpa using hrow
      · have hsome' : rows' ≠ [] := by
          rintro rfl
          exact hsome (by simpa using hrows)
        rw [lines_cons row hsome, lines_cons row' hsome']
        refine ⟨by simp [hrow, hlength], fun h => ?_⟩
        obtain ⟨rfl, hrest⟩ := List.append_inj h hrow
        rw [hinj (List.cons.inj hrest).2]

/-! ## Tables of numbers -/

theorem length_flatMap_word {entries : List Nat} (h : ∀ entry ∈ entries, entry < 65536) :
    (entries.flatMap fun entry => ' ' :: Hex.word entry).length = 7 * entries.length := by
  induction entries with
  | nil => simp
  | cons entry entries ih =>
      obtain ⟨hentry, hentries⟩ := List.forall_mem_cons.mp h
      simp only [List.flatMap_cons, List.length_append, List.length_cons,
        Hex.length_word hentry, ih hentries]
      omega

theorem flatMap_word_inj {entries entries' : List Nat} (h : ∀ entry ∈ entries, entry < 65536)
    (h' : ∀ entry ∈ entries', entry < 65536) (hlength : entries.length = entries'.length)
    (htext : (entries.flatMap fun entry => ' ' :: Hex.word entry) =
      entries'.flatMap fun entry => ' ' :: Hex.word entry) :
    entries = entries' := by
  induction entries generalizing entries' with
  | nil => exact (List.length_eq_zero_iff.mp hlength.symm).symm
  | cons entry entries ih =>
      cases entries' with
      | nil => simp at hlength
      | cons entry' entries' =>
          obtain ⟨hentry, hentries⟩ := List.forall_mem_cons.mp h
          obtain ⟨hentry', hentries'⟩ := List.forall_mem_cons.mp h'
          simp only [List.flatMap_cons] at htext
          obtain ⟨hword, hrest⟩ := List.append_inj htext
            (by simp [Hex.length_word hentry, Hex.length_word hentry'])
          rw [Hex.word_injective (List.cons.inj hword).2,
            ih hentries hentries' (Nat.succ.inj hlength) hrest]

theorem length_range {first last : Nat} (hfirst : first < 65536) (hlast : last < 65536) :
    (range first last).length = 17 := by
  simp [range, Hex.length_word hfirst, Hex.length_word hlast]

theorem range_inj {first last first' last' : Nat}
    (h : range first last = range first' last') : first = first' ∧ last = last' := by
  simp only [range, List.append_assoc] at h
  obtain ⟨hword, hrest⟩ := append_separator_inj (Hex.not_mem_word (by decide) first)
    (Hex.not_mem_word (by decide) first') h
  obtain ⟨hword', -⟩ := append_separator_inj (Hex.not_mem_word (by decide) last)
    (Hex.not_mem_word (by decide) last') (List.append_cancel_left hrest)
  exact ⟨Hex.word_injective hword, Hex.word_injective hword'⟩

theorem length_numberRow {first : Nat} {entries : List Nat}
    (hrange : first + entries.length < 65536) (h : ∀ entry ∈ entries, entry < 65536) :
    (numberRow first entries).length = 19 + 7 * entries.length := by
  simp only [numberRow, List.length_append, length_flatMap_word h]
  rw [length_range (by omega) (by omega)]
  simp [indent]

theorem numberRow_inj {first : Nat} {entries entries' : List Nat}
    (h : ∀ entry ∈ entries, entry < 65536) (h' : ∀ entry ∈ entries', entry < 65536)
    (hlength : entries.length = entries'.length)
    (htext : numberRow first entries = numberRow first entries') : entries = entries' := by
  simp only [numberRow, hlength] at htext
  exact flatMap_word_inj h h' hlength (List.append_cancel_left htext)

theorem numberRows_inj (first : Nat) {parts parts' : List (List Nat)}
    (hrange : first + parts.flatten.length < 65536)
    (h : ∀ part ∈ parts, ∀ entry ∈ part, entry < 65536)
    (h' : ∀ part ∈ parts', ∀ entry ∈ part, entry < 65536)
    (hlengths : parts.map List.length = parts'.map List.length) :
    (numberRows first parts).map List.length = (numberRows first parts').map List.length ∧
      (numberRows first parts = numberRows first parts' → parts = parts') := by
  induction parts generalizing first parts' with
  | nil =>
      obtain rfl : parts' = [] := by simpa using hlengths.symm
      exact ⟨rfl, fun _ => rfl⟩
  | cons part parts ih =>
      cases parts' with
      | nil => simp at hlengths
      | cons part' parts' =>
          obtain ⟨hpart, hparts⟩ := List.forall_mem_cons.mp h
          obtain ⟨hpart', hparts'⟩ := List.forall_mem_cons.mp h'
          obtain ⟨hlength, hlater⟩ := List.cons.inj hlengths
          simp only [List.flatten_cons, List.length_append] at hrange
          obtain ⟨hrows, hinj⟩ := ih (first + part.length) (by omega) hparts hparts' hlater
          simp only [numberRows, List.map_cons, ← hlength]
          refine ⟨?_, fun htext => ?_⟩
          · rw [length_numberRow (by omega) hpart, length_numberRow (by omega) hpart', hrows,
              hlength]
          · obtain ⟨hrow, hrest⟩ := List.cons.inj htext
            rw [numberRow_inj hpart hpart' hlength hrow, hinj hrest]

theorem map_length_pieces {α : Type} (size : Nat) {l l' : List α} (h : l.length = l'.length) :
    (pieces size l).map List.length = (pieces size l').map List.length := by
  induction l using pieces.induct size generalizing l' with
  | case1 =>
      obtain rfl : l' = [] := List.length_eq_zero_iff.mp h.symm
      rfl
  | case2 a rest ih =>
      cases l' with
      | nil => simp at h
      | cons a' rest' =>
          have hrest : rest.length = rest'.length := Nat.succ.inj h
          simp only [pieces, List.map_cons, List.length_cons, List.length_take, hrest]
          have hlater : (rest.drop (size - 1)).length = (rest'.drop (size - 1)).length := by
            simp [hrest]
          rw [ih hlater]

theorem numbers_inj {entries entries' : List Nat} (hlength : entries.length = entries'.length)
    (hrange : entries.length < 65536) (h : ∀ entry ∈ entries, entry < 65536)
    (h' : ∀ entry ∈ entries', entry < 65536) :
    (numbers entries).length = (numbers entries').length ∧
      (numbers entries = numbers entries' → entries = entries') := by
  have hmem : ∀ {l : List Nat}, (∀ entry ∈ l, entry < 65536) →
      ∀ part ∈ pieces rowLength l, ∀ entry ∈ part, entry < 65536 := by
    intro l hl part hpart entry hentry
    refine hl entry ?_
    rw [← flatten_pieces rowLength l]
    exact List.mem_flatten_of_mem hpart hentry
  obtain ⟨hrows, hparts⟩ := numberRows_inj 0
    (by rwa [flatten_pieces, Nat.zero_add]) (hmem h) (hmem h')
    (map_length_pieces rowLength hlength)
  obtain ⟨htext, hlines⟩ := lines_inj hrows
  refine ⟨htext, fun hnumbers => ?_⟩
  rw [← flatten_pieces rowLength entries, hparts (hlines hnumbers), flatten_pieces]

/-! ## The memory table -/

namespace Row

def body : Row → List Char
  | .words _ _ entries => entries.flatMap fun word => ' ' :: Hex.word word.toNat
  | .zeros _ _ => ' ' :: filler

theorem text_eq (row : Row) : row.text = indent ++ (range row.first row.last ++ row.body) := by
  cases row <;> simp [text, body, first, last]

theorem toNat_lt_of_mem (entries : List UInt16) :
    ∀ entry ∈ entries.map UInt16.toNat, entry < 65536 := by
  intro entry hentry
  obtain ⟨word, -, rfl⟩ := List.mem_map.mp hentry
  exact word.toNat_lt

theorem length_body {row : Row} (h : row.Regular) : row.body.length = 56 := by
  cases row with
  | words first last entries =>
      have hwords := length_flatMap_word (toNat_lt_of_mem entries)
      rwa [List.flatMap_map, List.length_map, h.2] at hwords
  | zeros => simp [body, filler, Hex.length_word]

/-- The second word of a row begins with a digit where the filler is blank. -/
theorem flatMap_word_ne_filler {entries : List UInt16} (h : entries.length = rowLength) :
    (entries.flatMap fun word => ' ' :: Hex.word word.toNat) ≠ ' ' :: filler := by
  match entries, h with
  | word :: next :: later, _ =>
      intro htext
      simp only [List.flatMap_cons, filler, List.append_assoc, List.cons_append,
        List.cons.injEq, true_and] at htext
      obtain ⟨-, hrest⟩ := List.append_inj htext
        (by rw [Hex.length_word word.toNat_lt, Hex.length_word (by decide)])
      simp [Hex.word, Hex.numeral, List.replicate_succ] at hrest

theorem eq_of_body_eq {row row' : Row} (h : row.Regular) (h' : row'.Regular)
    (hfirst : row.first = row'.first) (hlast : row.last = row'.last)
    (hbody : row.body = row'.body) : row = row' := by
  cases row with
  | words first last entries =>
      cases row' with
      | words first' last' entries' =>
          have hentries : entries.map UInt16.toNat = entries'.map UInt16.toNat :=
            flatMap_word_inj (toNat_lt_of_mem entries) (toNat_lt_of_mem entries')
              (by simp [h.2, h'.2])
              (by rw [List.flatMap_map, List.flatMap_map]; exact hbody)
          have hsame : entries = entries' :=
            (List.map_inj_right fun _ _ => UInt16.toNat.inj).mp hentries
          simp only [Row.first, Row.last] at hfirst hlast
          rw [hfirst, hlast, hsame]
      | zeros => exact absurd hbody (flatMap_word_ne_filler h.2)
  | zeros first last =>
      cases row' with
      | words => exact absurd hbody.symm (flatMap_word_ne_filler h'.2)
      | zeros first' last' =>
          simp only [Row.first, Row.last] at hfirst hlast
          rw [hfirst, hlast]

theorem length_text {row : Row} (h : row.Regular) (hlast : row.last < 65536) :
    row.text.length = 75 := by
  have hfirst : row.first < 65536 := Nat.lt_of_le_of_lt h.first_le hlast
  simp [text_eq, length_range hfirst hlast, length_body h, indent]

theorem text_inj {row row' : Row} (h : row.Regular) (h' : row'.Regular)
    (htext : row.text = row'.text) : row = row' := by
  rw [text_eq, text_eq] at htext
  obtain ⟨hrange, hbody⟩ := List.append_inj' (List.append_cancel_left htext)
    (by rw [length_body h, length_body h'])
  obtain ⟨hfirst, hlast⟩ := range_inj hrange
  exact eq_of_body_eq h h' hfirst hlast hbody

end Row

theorem tiles_append_singleton {start stop : Nat} {rows : List Row} {row : Row} :
    Tiles start (rows ++ [row]) stop ↔
      Tiles start rows row.first ∧ row.Regular ∧ row.last + 1 = stop := by
  rw [tiles_append]
  simp [Tiles]

theorem append_rows_inj {rows rows' : List Row} {stop : Nat} (hstop : stop ≤ 65536)
    (hrows : Tiles 0 rows stop) (hrows' : Tiles 0 rows' stop) {before before' : List Char}
    (h : before ++ rows.flatMap (fun row => row.text ++ ['\n']) =
      before' ++ rows'.flatMap fun row => row.text ++ ['\n']) :
    before = before' ∧ rows = rows' := by
  induction rows using List.reverseRecOn generalizing rows' stop with
  | nil =>
      obtain rfl : 0 = stop := hrows
      have hnone := hrows'.le
      obtain rfl : rows' = [] := List.length_eq_zero_iff.mp (by omega)
      exact ⟨by simpa using h, rfl⟩
  | append_singleton earlier row ih =>
      obtain ⟨hearlier, hrow, rfl⟩ := tiles_append_singleton.mp hrows
      cases rows' using List.reverseRecOn with
      | nil => exact absurd hrows' (Nat.zero_ne_add_one _)
      | append_singleton earlier' row' =>
          obtain ⟨hearlier', hrow', hlast⟩ := tiles_append_singleton.mp hrows'
          have hlast' : row'.last < 65536 := by omega
          simp only [List.flatMap_append, List.flatMap_singleton, ← List.append_assoc] at h
          obtain ⟨htext, -⟩ := List.append_inj' h rfl
          obtain ⟨hbefore, hline⟩ := List.append_inj' htext
            (by rw [Row.length_text hrow hstop, Row.length_text hrow' hlast'])
          obtain rfl := Row.text_inj hrow hrow' hline
          obtain ⟨hsame, rfl⟩ := ih (Nat.le_trans hrow.first_le (Nat.le_of_lt hstop))
            hearlier hearlier' hbefore
          exact ⟨hsame, rfl⟩

theorem memory_append_newline {bytes : List UInt8} (h : bytes ≠ []) :
    memory bytes ++ ['\n'] = (memoryRows bytes).flatMap fun row => row.text ++ ['\n'] := by
  have hsome : (memoryRows bytes).map Row.text ≠ [] := by
    intro hnone
    have htiles := tiles_memoryRows bytes
    rw [List.map_eq_nil_iff.mp hnone] at htiles
    exact h (List.length_eq_zero_iff.mp htiles.symm)
  rw [memory, lines_append_newline hsome, List.flatMap_map]

theorem append_memory_inj {bytes bytes' : List UInt8} (hlength : bytes.length = bytes'.length)
    (hpos : 0 < bytes.length) (hbound : bytes.length ≤ 65536) {before before' : List Char}
    (h : before ++ memory bytes ++ ['\n'] = before' ++ memory bytes' ++ ['\n']) :
    before = before' ∧ bytes = bytes' := by
  have hrows := tiles_memoryRows bytes
  have hrows' : Tiles 0 (memoryRows bytes') bytes.length := hlength ▸ tiles_memoryRows bytes'
  rw [List.append_assoc, List.append_assoc,
    memory_append_newline (List.ne_nil_of_length_pos hpos),
    memory_append_newline (List.ne_nil_of_length_pos (hlength ▸ hpos))] at h
  obtain ⟨hbefore, hsame⟩ := append_rows_inj hbound hrows hrows' h
  refine ⟨hbefore, ?_⟩
  rw [← cells_memoryRows bytes, hsame, cells_memoryRows]

end Chip8VM.Dump
