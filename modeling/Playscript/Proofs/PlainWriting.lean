import Playscript.Proofs.Positions
import Playscript.Proofs.RoundTrip

/-!
# Writing without escapes and quotes

Prose is escaped and a value is quoted only where the plain form would not be read back. A line with
an opening bracket is the reason to ask for every text that may follow: it is prose unless the
bracket is closed later on.
-/

namespace Playscript

/-- At the start of this line, whatever follows it, there is prose that says just this. -/
def Text.ReadsAsProse (text : Text) : Prop :=
  ∀ rest, ∃ step, Step.ofRules Rule.standard (text ++ '\n' :: rest) = .ok step ∧
    step.line = .prose text

def Entry.ReadsBare (key value : Text) : Prop :=
  ∃ found, (Cursor.mk (key ++ Mark.assign :: value) 0).run Recognizer.parameter =
    .matched found (key ++ Mark.assign :: value).length ∧ found.content = (key, .text value)

section Prose

variable {text content : Text} {sigil : Sigil} {opening : Opening}

theorem Opening.prose_notMem_kinds (h : opening ≠ .prose) : Kind.prose ∉ opening.kinds := by
  cases opening with
  | prose => exact (h rfl).elim
  | _ => decide

theorem Opening.strip?_eq_none_of_prose (h : ofText (text ++ '\n' :: [Mark.bracketClose]) = .prose)
    (hs : sigil ≠ .escape) : sigil.strip? text = none := by
  rw [Option.eq_none_iff_forall_ne_some]
  intro kept hkept
  rw [Sigil.strip?_eq_some_iff] at hkept
  subst hkept
  -- The bracket on the next line closes a tag that was left open.
  cases sigil with
  | escape => exact hs rfl
  | _ => simp [ofText, Sigil.text] at h

theorem Line.Spelling.eq_trim (h : Line.Spelling (.prose text) content) (heq : content = text) :
    text = text.trim ∧ Sigil.escape.strip? text = none := by
  cases h with
  | escaped kept =>
    -- The escape is no part of the text, which would be longer than itself.
    have hlength := congrArg List.length heq
    simp [Sigil.text] at hlength
  | prose hnone =>
    rw [← heq]
    exact ⟨heq, hnone⟩

theorem Text.ReadsAsProse.needsEscape_eq_false (h : text.ReadsAsProse)
    (hf : text.hasBreak = false) : text.needsEscape = false := by
  obtain ⟨step, hstep, hline⟩ := h [Mark.bracketClose]
  have hmatch := Step.recognize_of_ok hstep
  rw [hline] at hmatch
  have hopening : Opening.ofText (text ++ '\n' :: [Mark.bracketClose]) = .prose := by
    by_contra hne
    exact Opening.prose_notMem_kinds hne (Opening.kind_mem hmatch)
  rw [hopening] at hmatch
  obtain ⟨-, -, hspelling, -⟩ := Recognizer.prose_sound hmatch
  rw [PhysicalLine.ofText_lf (Text.hasBreak_eq_false_iff.mp hf)] at hspelling
  obtain ⟨htrim, hescape⟩ := hspelling.eq_trim rfl
  refine Text.needsEscape_eq_false_iff.mpr ⟨htrim, ?_⟩
  intro sigil
  by_cases hs : sigil = .escape
  · exact hs ▸ hescape
  · exact Opening.strip?_eq_none_of_prose hopening hs

theorem Text.readsAsProse_iff (hf : text.hasBreak = false) :
    text.ReadsAsProse ↔ text.needsEscape = false := by
  constructor
  · intro h
    exact h.needsEscape_eq_false hf
  · intro hn rest
    have hw : Line.write (.prose text) = .ok text := by simp [Line.write, hf, hn]
    exact ⟨_, Step.ofRules_written hw rest, rfl⟩

/-- The escape stands exactly where the line would not be read as it is. -/
theorem Line.write_prose_iff (hf : text.hasBreak = false) :
    (Line.write (.prose text) = .ok text ↔ text.ReadsAsProse) ∧
      (Line.write (.prose text) = .ok (Sigil.escape.text ++ text) ↔ ¬ text.ReadsAsProse) := by
  have hne : Sigil.escape.text ++ text ≠ text := by simp [Sigil.text]
  rw [Text.readsAsProse_iff hf]
  cases hn : text.needsEscape with
  | false => simp [Line.write, hf, hn, hne.symm]
  | true => simp [Line.write, hf, hn, hne]

end Prose

section Values

variable {key value written token : Text}

theorem Text.Spelling.isBare (h : value.Spelling written) (heq : written = value) :
    value.IsBare := by
  cases h with
  | bare hb => exact hb
  | quoted =>
    have hlength := congrArg List.length heq
    simp at hlength
    omega

theorem Entry.Spelling.isBare (h : Entry.Spelling (key, .text value) token)
    (heq : token = key ++ Mark.assign :: value) : value.IsBare := by
  cases h with
  | assigned hk hv =>
    exact hv.isBare (List.cons.inj (List.append_cancel_left heq)).2

theorem Entry.ReadsBare.isBare (h : Entry.ReadsBare key value) : value.IsBare := by
  obtain ⟨found, hrun, hfound⟩ := h
  obtain ⟨entry, size, hmatch, rfl, hsize⟩ := Cursor.run_eq_matched_iff.mp hrun
  obtain rfl : entry = (key, .text value) := hfound
  change Recognizer.parameter (key ++ Mark.assign :: value) = _ at hmatch
  obtain ⟨token, rest, hs, htext, -, rfl⟩ := Recognizer.parameter_sound hmatch
  have hrest : rest = [] := by
    change _ = 0 + token.length at hsize
    rw [htext, List.length_append] at hsize
    exact List.length_eq_zero_iff.mp (by omega)
  rw [hrest, List.append_nil] at htext
  exact hs.isBare htext.symm

theorem Entry.readsBare_iff (hk : key.IsKey) : Entry.ReadsBare key value ↔ value.IsBare := by
  constructor
  · exact Entry.ReadsBare.isBare
  · intro hb
    have hmatch := Recognizer.parameter_complete (.assigned hk (.bare hb))
      (rfl : Recognizer.atTokenEnd [] = true)
    rw [List.append_nil] at hmatch
    exact ⟨_, Cursor.run_eq_matched_iff.mpr ⟨_, _, hmatch, rfl, (Nat.zero_add _).symm⟩, rfl⟩

theorem Entry.writeValue_cases (h : Entry.writeValue key value = .ok written) :
    (value.IsBare ∧ written = value) ∨
      (¬ value.IsBare ∧ ∃ mark ∈ Mark.quotes, mark ∉ value ∧
        written = mark :: (value ++ [mark])) := by
  unfold Entry.writeValue at h
  split at h
  · cases h
  split at h
  next hquotes =>
    obtain rfl := Except.ok.inj h
    exact Or.inl ⟨Text.needsQuotes_eq_false_iff.mp (by simpa using hquotes), rfl⟩
  next hquotes =>
    have hbare : ¬ value.IsBare := by
      rw [← Text.needsQuotes_eq_false_iff]
      simpa using hquotes
    split at h
    next mark hfind =>
      obtain rfl := Except.ok.inj h
      have hfree : mark ∉ value := by simpa using List.find?_some hfind
      exact Or.inr ⟨hbare, mark, List.mem_of_find?_eq_some hfind, hfree, rfl⟩
    · cases h

theorem Entry.exists_of_write_text (h : Entry.write (key, .text value) = .ok written) :
    key.IsKey ∧ ∃ token, Entry.writeValue key value = .ok token ∧
      written = key ++ Mark.assign :: token := by
  obtain ⟨hs, -⟩ := Entry.write_sound h
  have hk : key.IsKey := by
    cases hs with
    | assigned hk _ => exact hk
  rw [Entry.write_assigned hk] at h
  cases hw : Entry.writeValue key value with
  | error e =>
    rw [hw] at h
    cases h
  | ok token =>
    rw [hw] at h
    exact ⟨hk, token, rfl, (Except.ok.inj h).symm⟩

/-- The quotation marks stand exactly where the bare value would not be read back. -/
theorem Entry.write_text_iff (h : Entry.write (key, .text value) = .ok written) :
    (written = key ++ Mark.assign :: value ↔ Entry.ReadsBare key value) ∧
      ((∃ mark ∈ Mark.quotes, mark ∉ value ∧
        written = key ++ Mark.assign :: mark :: (value ++ [mark])) ↔
        ¬ Entry.ReadsBare key value) := by
  obtain ⟨hk, token, hw, rfl⟩ := Entry.exists_of_write_text h
  have hquoted : ∀ mark : Char, mark :: (value ++ [mark]) ≠ value := by
    intro mark heq
    have hlength := congrArg List.length heq
    simp only [List.length_cons, List.length_append] at hlength
    omega
  rw [Entry.readsBare_iff hk]
  simp only [List.append_cancel_left_eq, List.cons.injEq, true_and]
  rcases Entry.writeValue_cases hw with ⟨hb, rfl⟩ | ⟨hb, mark, hm, hfree, rfl⟩
  · refine ⟨iff_of_true rfl hb, iff_of_false ?_ (not_not_intro hb)⟩
    rintro ⟨mark, -, -, heq⟩
    exact hquoted mark heq.symm
  · exact ⟨iff_of_false (hquoted mark) hb, iff_of_true ⟨mark, hm, hfree, rfl⟩ hb⟩

end Values

/-- Escapes and quotes are written exactly where the plain form would not be read back. -/
theorem written_plain_iff :
    (∀ text : Text, text.hasBreak = false →
      (Line.write (.prose text) = .ok text ↔ text.ReadsAsProse) ∧
      (Line.write (.prose text) = .ok (Sigil.escape.text ++ text) ↔ ¬ text.ReadsAsProse)) ∧
    ∀ key value written, Entry.write (key, .text value) = .ok written →
      (written = key ++ Mark.assign :: value ↔ Entry.ReadsBare key value) ∧
      ((∃ mark ∈ Mark.quotes, mark ∉ value ∧
        written = key ++ Mark.assign :: mark :: (value ++ [mark])) ↔
        ¬ Entry.ReadsBare key value) := by
  constructor
  · intro text hf
    exact Line.write_prose_iff hf
  · intro key value written h
    exact Entry.write_text_iff h

theorem written_plain_iff_bracket :
    Text.hasBreak ['[', 'a'] = false ∧ ¬ Text.ReadsAsProse ['[', 'a'] ∧
      Entry.write (['k'], .text ['a', '=', '"']) = .ok ['k', '=', 'a', '=', '"'] ∧
      Entry.ReadsBare ['k'] ['a', '=', '"'] :=
  ⟨by decide, ((written_plain_iff.1 ['[', 'a'] (by decide)).2.mp rfl), rfl,
    (written_plain_iff.2 ['k'] ['a', '=', '"'] _ rfl).1.mp rfl⟩

end Playscript
