import Playscript.Proofs.EqualNodes
import Playscript.Proofs.RoundTrip

/-!
# Canonical sources

A document can be written exactly if some source says the same. What is written is the canonical
source of the document: reading it and writing it again changes nothing.
-/

namespace Playscript

variable {text : Text} {line : Line} {size : Nat}

namespace Text

theorem bracketClose_notMem_foldBreaks (h : Mark.bracketClose ∉ text) :
    Mark.bracketClose ∉ text.foldBreaks := by
  intro hm
  obtain ⟨d, hd, he⟩ := List.mem_map.mp hm
  split at he
  · cases he
  · rw [he] at hd
    exact h hd

end Text

namespace Opening

theorem bracketTag_writable (h : Recognizer.bracketTag text = .matched line size) :
    ∃ written, line.write = .ok written := by
  obtain ⟨inside, after, skipped, name, body, parameters, -, hclose, hfold, -, hname, -, hlist,
    rfl, -⟩ := Recognizer.bracketTag_sound h
  have hflat := Text.hasBreak_foldBreaks inside
  have hfree := Text.bracketClose_notMem_foldBreaks hclose
  rw [hfold] at hflat hfree
  simp only [Text.hasBreak_append, Bool.or_eq_false_iff] at hflat
  simp only [List.mem_append, not_or] at hfree
  obtain ⟨written, hwritten, hchars⟩ := Parameters.writeAfter_complete name hlist hflat.2.2
  have hnot : Mark.bracketClose ∉ written := by
    intro hm
    rcases hchars _ hm with hc | hc | hc | hc
    · exact hfree.2.1 hc
    · exact hfree.2.2 hc
    · cases hc
    · revert hc
      decide
  exact ⟨_, Line.writeBracketTag_complete hname hwritten hnot⟩

theorem takesLine_writable (h : Recognizer.TakesLine line text size) :
    ∃ written, line.write = .ok written := by
  apply Line.write_complete h.1
  rw [Text.hasBreak_eq_false_iff]
  exact (PhysicalLine.opens_ofText text).content_flat

/-- Whatever the standard rules find can be written. -/
theorem writable {opening : Opening} (h : opening.rule.recognize text = .matched line size) :
    ∃ written, line.write = .ok written := by
  cases opening with
  | comment => exact takesLine_writable (Recognizer.comment_sound h).2
  | blockComment =>
    obtain ⟨body, after, -, hpiece, hbreak, -, rfl, -⟩ :=
      Recognizer.blockComment_eq_matched_iff.mp h
    exact ⟨_, by simp only [Line.write, hpiece, hbreak]; rfl⟩
  | bracketTag => exact bracketTag_writable h
  | label => exact takesLine_writable (Recognizer.label_sound h).2
  | cue => exact takesLine_writable (Recognizer.cue_sound h).2
  | lineTag => exact takesLine_writable (Recognizer.lineTag_sound h).2
  | prose => exact takesLine_writable (Recognizer.prose_sound h).2.2

end Opening

namespace Line

variable {a b : Line}

theorem writable_of_alike (h : a.alike b) (hw : a.write = .ok text) :
    ∃ written, b.write = .ok written := by
  rcases alike_cases h with rfl | ⟨form, name, p, q, rfl, rfl, hperm⟩
  · exact ⟨text, hw⟩
  cases form with
  | line =>
    simp only [write, writeTag] at hw
    split at hw
    · cases hw
    next hname =>
    cases hp : p.writeAfter name with
    | error e => simp [hp, Except.map] at hw
    | ok written =>
      obtain ⟨written', hq, -⟩ := Parameters.writeAfter_perm hperm.symm hp
      exact ⟨Sigil.lineTag.text ++ written', by simp [write, writeTag, hname, hq, Except.map]⟩
  | bracket =>
    obtain ⟨hname, written, hp, hclose, -⟩ := writeBracketTag_sound hw
    obtain ⟨written', hq, hchars⟩ := Parameters.writeAfter_perm hperm.symm hp
    have hfree : Mark.bracketClose ∉ written' := by
      intro hm
      exact hclose (hchars _ hm)
    exact ⟨_, writeBracketTag_complete hname hq hfree⟩

end Line

namespace Document

variable {a b : Document} {lines as bs : List (Located Line)}

def contents : Document → Option (List Line)
  | empty => none
  | script lines => some (lines.map Located.content)

/-- The same kinds and fields line by line, where parameters count as a mapping. -/
def Agrees : Document → Document → Prop
  | empty, empty => True
  | script as, script bs => List.Forall₂ (fun a b => Line.alike a.content b.content) as bs
  | _, _ => False

theorem agrees_of_contents (h : a.contents = b.contents) : a.Agrees b := by
  cases a with
  | empty =>
    cases b with
    | empty => trivial
    | script bs => cases h
  | script as =>
    cases b with
    | empty => cases h
    | script bs =>
      have hmap : as.map Located.content = bs.map Located.content := Option.some.inj h
      have hall : List.Forall₂ (fun x y => Line.alike x y) (as.map Located.content)
          (bs.map Located.content) := by
        rw [hmap]
        exact List.forall₂_same.mpr fun line _ => Line.alike_refl line
      simpa [Agrees] using hall

theorem write_script_eq (h : lines ≠ []) : (script lines).write =
    ((lines.map Located.content).mapM Line.writeEnded).map List.flatten := by
  rw [List.mapM_map]
  cases lines with
  | nil => exact (h rfl).elim
  | cons line lines => rfl

theorem write_congr (h : a.contents = b.contents) : a.write = b.write := by
  cases a with
  | empty =>
    cases b with
    | empty => rfl
    | script bs => cases h
  | script as =>
    cases b with
    | empty => cases h
    | script bs =>
      have hmap : as.map Located.content = bs.map Located.content := Option.some.inj h
      cases as with
      | nil =>
        obtain rfl : bs = [] := List.map_eq_nil_iff.mp hmap.symm
        rfl
      | cons line as =>
        have hne : bs ≠ [] := by
          rintro rfl
          cases hmap
        rw [write_script_eq (List.cons_ne_nil line as), write_script_eq hne, hmap]

theorem exists_writeEnded_iff : (∃ text, line.writeEnded = .ok text) ↔
    ∃ text, line.write = .ok text := by
  cases hw : line.write with
  | error e => simp [Line.writeEnded, hw, Except.map]
  | ok text => simp [Line.writeEnded, hw, Except.map]

theorem exists_write_iff : (∃ text, (script lines).write = .ok text) ↔
    lines ≠ [] ∧ ∀ line ∈ lines, ∃ text, line.content.write = .ok text := by
  have hlines : (∃ texts, (lines.map Located.content).mapM Line.writeEnded = .ok texts) ↔
      ∀ line ∈ lines, ∃ text, line.content.write = .ok text := by
    rw [exists_mapM_iff]
    simp only [List.mem_map, forall_exists_index, and_imp, forall_apply_eq_imp_iff₂,
      exists_writeEnded_iff]
  rw [← hlines]
  by_cases hne : lines = []
  · subst hne
    simp [write]
  · rw [write_script_eq hne]
    cases (lines.map Located.content).mapM Line.writeEnded with
    | error e => simp [Except.map]
    | ok texts => simp [Except.map, hne]

theorem writable_of_agrees (h : a.Agrees b) (hw : a.write = .ok text) :
    ∃ written, b.write = .ok written := by
  cases a with
  | empty =>
    cases b with
    | empty => exact ⟨[], rfl⟩
    | script bs => cases h
  | script as =>
    cases b with
    | empty => cases h
    | script bs =>
      obtain ⟨hne, hall⟩ := exists_write_iff.mp ⟨text, hw⟩
      change List.Forall₂ (fun a b => Line.alike a.content b.content) as bs at h
      refine exists_write_iff.mpr ⟨?_, ?_⟩
      · rintro rfl
        exact hne (List.forall₂_nil_right_iff.mp h)
      · clear hw hne
        induction h with
        | nil => simp
        | @cons a b as bs hab _ ih =>
          intro line hline
          rcases List.mem_cons.mp hline with rfl | hline
          · obtain ⟨text, ha⟩ := hall a List.mem_cons_self
            exact Line.writable_of_alike hab ha
          · exact ih (fun line hl => hall line (List.mem_cons_of_mem a hl)) line hline

theorem writable_of_parse {source : Text} {read : Located Document}
    (h : (Reader.unlimited Rule.standard).parse source = .ok read) :
    ∃ written, read.content.write = .ok written := by
  rcases Reader.run_of_parse h with ⟨-, rfl⟩ | ⟨hne, rounds, lines, hrun, rfl⟩
  · exact ⟨[], rfl⟩
  · obtain ⟨hlines, -⟩ := hrun.starts .zero
    refine exists_write_iff.mpr ⟨hrun.lines_ne_nil (List.length_pos_iff.mpr hne), ?_⟩
    intro line hline
    obtain ⟨start, step, -, hstart, hs, rfl⟩ := hlines line hline
    obtain ⟨opening, hmatch⟩ := Step.exists_opening_of_ok hs
    exact Opening.writable hmatch

/-- A written document is read back as it was. -/
theorem exists_parse_of_write {document : Document} (h : document.write = .ok text) :
    ∃ read, (Reader.unlimited Rule.standard).parse text = .ok read ∧
      read.content.contents = document.contents := by
  cases document with
  | empty =>
    obtain rfl := Except.ok.inj h
    exact ⟨_, Reader.parse_nil (not_excludes_unlimited _ _), rfl⟩
  | script lines =>
    obtain ⟨bare, read, -, hparse, hcontent, -⟩ := exists_readsBack h
    exact ⟨_, hparse, congrArg some hcontent⟩

/-- A document cannot be written exactly if no source agrees with it. What is written reads back as
the document, and for a document that was read it is a fixed point of reading and writing. -/
theorem write_canonical :
    (∀ document : Document, (∃ e, document.write = .error e) ↔
      ¬ ∃ source read, (Reader.unlimited Rule.standard).parse source = .ok read ∧
        read.content.Agrees document) ∧
    (∀ (document : Document) (text : Text), document.write = .ok text →
      ∃ read, (Reader.unlimited Rule.standard).parse text = .ok read ∧
        read.content.contents = document.contents) ∧
    ∀ (source : Text) (read : Located Document),
      (Reader.unlimited Rule.standard).parse source = .ok read →
      ∃ text, read.content.write = .ok text ∧
        ∃ again, (Reader.unlimited Rule.standard).parse text = .ok again ∧
          again.content.contents = read.content.contents ∧ again.content.write = .ok text := by
  refine ⟨?_, ?_, ?_⟩
  · intro document
    constructor
    · rintro ⟨e, he⟩ ⟨source, read, hparse, hagrees⟩
      obtain ⟨text, hread⟩ := writable_of_parse hparse
      obtain ⟨written, hw⟩ := writable_of_agrees hagrees hread
      rw [he] at hw
      cases hw
    · intro hnone
      cases hw : document.write with
      | error e => exact ⟨e, rfl⟩
      | ok text =>
        obtain ⟨read, hparse, hcontents⟩ := exists_parse_of_write hw
        exact (hnone ⟨text, read, hparse, agrees_of_contents hcontents⟩).elim
  · intro document text hw
    exact exists_parse_of_write hw
  · intro source read hparse
    obtain ⟨text, hw⟩ := writable_of_parse hparse
    obtain ⟨again, hagain, hcontents⟩ := exists_parse_of_write hw
    exact ⟨text, hw, again, hagain, hcontents, by rw [write_congr hcontents, hw]⟩

theorem write_canonical_prose :
    (¬ ∃ source read, (Reader.unlimited Rule.standard).parse source = .ok read ∧
      read.content.Agrees (script [⟨.comment ['\n'], [], none⟩])) ∧
    ∃ read text, (Reader.unlimited Rule.standard).parse [' ', 'a'] = .ok read ∧
      read.content.write = .ok text ∧
      ∃ again, (Reader.unlimited Rule.standard).parse text = .ok again ∧
        again.content.contents = read.content.contents ∧ again.content.write = .ok text := by
  obtain ⟨hiff, -, hfixed⟩ := write_canonical
  refine ⟨(hiff _).mp ⟨.lineBreak .comment ['\n'], rfl⟩, ?_⟩
  have hrun : Run Rule.standard [' ', 'a'] 1 0 _ none :=
    @Run.line _ _ 0 0 ⟨.prose ['a'], 2, by decide⟩ _ _ (by decide) rfl (.finished (by decide))
  have hparse := Reader.parse_of_run (not_excludes_unlimited _ _) (by decide) hrun
  obtain ⟨text, hw, hagain⟩ := hfixed _ _ hparse
  exact ⟨_, text, hparse, hw, hagain⟩

end Document

end Playscript
