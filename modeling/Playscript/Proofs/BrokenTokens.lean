import Playscript.Proofs.BracketTags
import Playscript.Proofs.UnifiedParameters

/-!
# Breaks in a token

Breaks between the brackets of a tag are folded before its parameters are read, so the tokens are
those of the folded text. In the text as written, a break in a key, at the assignment mark or in a
bare value ends the token there. Between two quotation marks it is one more space of the value.
-/

namespace Playscript

open Recognizer (atTokenEnd)

/-- The ways to spell a parameter where breaks are folded: without any break, or with all of them
between the quotation marks of the value. -/
inductive Entry.FoldedSpelling : Entry → Text → Prop where
  | whole {entry : Entry} {token : Text} (h : entry.Spelling token)
      (hf : token.hasBreak = false) : FoldedSpelling entry token
  | broken {key value : Text} {mark : Char} (hk : key.IsKey) (hm : mark ∈ Mark.quotes)
      (hv : mark ∉ value) (hb : value.hasBreak) :
      FoldedSpelling (key, .text value.foldBreaks)
        (key ++ Mark.assign :: mark :: (value ++ [mark]))

namespace Text

variable {text rest : Text} {c : Char}

theorem exists_cons_of_foldBreaks (hc : c ≠ ' ') (h : text.foldBreaks = c :: rest) :
    ∃ tail : Text, text = c :: tail ∧ tail.foldBreaks = rest := by
  obtain ⟨d, tail, rfl, hd, htail⟩ := List.map_eq_cons_iff.mp h
  refine ⟨tail, ?_, htail⟩
  by_cases hb : isBreak d
  · rw [if_pos hb] at hd
    exact (hc hd.symm).elim
  · rw [if_neg hb] at hd
    rw [hd]

theorem hasBreak_of_foldBreaks_unspaced (h : ∀ c ∈ text.foldBreaks, isSpace c = false) :
    text.hasBreak = false := by
  apply hasBreak_of_unspaced
  have hall : text.foldBreaks.all (!isSpace ·) := by simpa using h
  rw [takesBreaksAsSpaces_unspaced.all_foldBreaks] at hall
  simpa using hall

theorem exists_quoted_of_foldBreaks {value : Text} {mark : Char} (hm : mark ∈ Mark.quotes)
    (h : text.foldBreaks = mark :: (value ++ [mark])) :
    ∃ inner : Text, text = mark :: (inner ++ [mark]) ∧ inner.foldBreaks = value := by
  have hspace := Recognizer.ne_space_of_not_isSpace (Recognizer.isSpace_of_mem_quotes hm)
  obtain ⟨tail, rfl, htail⟩ := exists_cons_of_foldBreaks hspace h
  obtain ⟨inner, last, rfl, hinner, hlast⟩ := List.map_eq_append_iff.mp htail
  obtain ⟨rest, rfl, hrest⟩ := exists_cons_of_foldBreaks hspace hlast
  obtain rfl : rest = [] := List.map_eq_nil_iff.mp hrest
  exact ⟨inner, rfl, hinner⟩

theorem IsKey.hasBreak (h : text.IsKey) : text.hasBreak = false := hasBreak_of_unspaced h.unspaced

end Text

namespace Entry

variable {entry : Entry} {token : Text}

theorem FoldedSpelling.spelling (h : entry.FoldedSpelling token) :
    entry.Spelling token.foldBreaks := by
  cases h with
  | whole h hf => rwa [Text.foldBreaks_eq_self hf]
  | @broken key value mark hk hm hv hb =>
    have hmark := Text.isBreak_of_mem_quotes hm
    have hspace := Recognizer.ne_space_of_not_isSpace (Recognizer.isSpace_of_mem_quotes hm)
    have hassign : isBreak Mark.assign = false := rfl
    rw [Text.foldBreaks_append, Text.foldBreaks_eq_self hk.hasBreak, Text.foldBreaks_cons hassign,
      Text.foldBreaks_cons hmark, Text.foldBreaks_append, Text.foldBreaks_cons hmark]
    rw [← Text.mem_foldBreaks_iff hmark hspace] at hv
    exact .assigned hk (.quoted hm hv)

/-- In a folded text the value is read from the folded token. -/
theorem foldedSpelling_of_assigned {key written value : Text} (hk : key.IsKey)
    (hv : value.Spelling (Text.foldBreaks written)) :
    FoldedSpelling (key, .text value) (key ++ Mark.assign :: written) := by
  generalize hfold : Text.foldBreaks written = folded at hv
  have hassign : isBreak Mark.assign = false := rfl
  cases hv with
  | bare hbare =>
    rw [← hfold] at hbare
    have hflat := Text.hasBreak_of_foldBreaks_unspaced hbare.unspaced
    rw [Text.foldBreaks_eq_self hflat] at hbare hfold
    rw [← hfold]
    refine .whole (.assigned hk (.bare hbare)) ?_
    rw [Text.hasBreak_append, hk.hasBreak, Text.hasBreak_cons, hflat]
    rfl
  | @quoted mark hm hv =>
    have hmark := Text.isBreak_of_mem_quotes hm
    have hspace := Recognizer.ne_space_of_not_isSpace (Recognizer.isSpace_of_mem_quotes hm)
    obtain ⟨inner, rfl, rfl⟩ := Text.exists_quoted_of_foldBreaks hm hfold
    rw [Text.mem_foldBreaks_iff hmark hspace] at hv
    cases hb : inner.hasBreak with
    | true => exact .broken hk hm hv hb
    | false =>
      rw [Text.foldBreaks_eq_self hb]
      refine .whole (.assigned hk (.quoted hm hv)) ?_
      simp [hk.hasBreak, hb, hmark, hassign]

theorem foldedSpelling_of_spelling (h : entry.Spelling token.foldBreaks) :
    entry.FoldedSpelling token := by
  generalize hfold : token.foldBreaks = folded at h
  cases h with
  | flag hk =>
    have hflat := Text.hasBreak_of_foldBreaks_unspaced (hfold ▸ hk.unspaced)
    rw [← hfold, Text.foldBreaks_eq_self hflat] at hk ⊢
    exact .whole (.flag hk) hflat
  | @assigned key value written hk hv =>
    obtain ⟨front, tail, rfl, rfl, htail⟩ := List.map_eq_append_iff.mp hfold
    change Text.IsKey (Text.foldBreaks front) at hk
    have hflat := Text.hasBreak_of_foldBreaks_unspaced hk.unspaced
    change FoldedSpelling (Text.foldBreaks front, _) _
    rw [Text.foldBreaks_eq_self hflat] at hk ⊢
    obtain ⟨written, rfl, rfl⟩ := Text.exists_cons_of_foldBreaks (by decide) htail
    exact foldedSpelling_of_assigned hk hv

theorem spelling_foldBreaks_iff : entry.Spelling token.foldBreaks ↔ entry.FoldedSpelling token :=
  ⟨foldedSpelling_of_spelling, FoldedSpelling.spelling⟩

end Entry

namespace Layout

variable {layout : Layout} {text : Text} {entries : List Entry}

def foldBreaks (layout : Layout) : Layout :=
  ⟨layout.items.map fun item => ⟨item.space.foldBreaks, item.token.foldBreaks, item.entry⟩,
    layout.trailing.foldBreaks⟩

structure IsWritten (layout : Layout) : Prop where
  spelled : ∀ item ∈ layout.items, item.entry.FoldedSpelling item.token
  spaced : ∀ item ∈ layout.items, ∀ c ∈ item.space, isSpace c
  apart : ∀ item ∈ layout.items.tail, item.space ≠ []
  trailing_spaced : ∀ c ∈ layout.trailing, isSpace c

theorem entries_foldBreaks (layout : Layout) : layout.foldBreaks.entries = layout.entries := by
  simp [foldBreaks, entries]

theorem text_foldBreaks (layout : Layout) : layout.foldBreaks.text = layout.text.foldBreaks := by
  obtain ⟨items, trailing⟩ := layout
  induction items with
  | nil => rfl
  | cons item items ih =>
    rw [text_cons, Text.foldBreaks_append, Text.foldBreaks_append, ← ih]
    exact text_cons _ _ _

/-- A layout of the folded text shows how the text itself is laid out. -/
theorem exists_foldBreaks_eq (h : layout.text = text.foldBreaks) :
    ∃ written : Layout, written.text = text ∧ written.foldBreaks = layout := by
  obtain ⟨items, trailing⟩ := layout
  induction items generalizing text with
  | nil =>
    refine ⟨⟨[], text⟩, rfl, ?_⟩
    rw [foldBreaks, ← h]
    rfl
  | cons item items ih =>
    rw [text_cons] at h
    obtain ⟨space, rest, rfl, hspace, hrest⟩ := List.map_eq_append_iff.mp h.symm
    obtain ⟨token, rest, rfl, htoken, hrest⟩ := List.map_eq_append_iff.mp hrest
    obtain ⟨⟨others, last⟩, rfl, hfold⟩ := ih hrest.symm
    refine ⟨⟨⟨space, token, item.entry⟩ :: others, last⟩, text_cons _ _ _, ?_⟩
    obtain ⟨hitems, hlast⟩ := Layout.mk.inj hfold
    rw [foldBreaks, List.map_cons, hitems, hlast]
    refine congrArg (Layout.mk · trailing) (congrArg (· :: items) ?_)
    exact Item.ext hspace htoken rfl

theorem all_isSpace_foldBreaks_iff :
    (∀ c ∈ text.foldBreaks, isSpace c) ↔ ∀ c ∈ text, isSpace c := by
  rw [← List.all_eq_true, ← List.all_eq_true,
    Text.takesBreaksAsSpaces_isSpace.all_foldBreaks]

theorem isValid_foldBreaks_iff : layout.foldBreaks.IsValid ↔ layout.IsWritten := by
  constructor
  · rintro ⟨hs, hp, ha, ht⟩
    constructor
    · intro item hm
      exact Entry.spelling_foldBreaks_iff.mp (hs _ (List.mem_map_of_mem hm))
    · intro item hm
      exact all_isSpace_foldBreaks_iff.mp (hp _ (List.mem_map_of_mem hm))
    · intro item hm hnil
      refine ha ⟨item.space.foldBreaks, item.token.foldBreaks, item.entry⟩ ?_ ?_
      · rw [foldBreaks, ← List.map_tail]
        exact List.mem_map_of_mem hm
      · rw [hnil]
        rfl
    · exact all_isSpace_foldBreaks_iff.mp ht
  · rintro ⟨hs, hp, ha, ht⟩
    constructor
    · intro folded hm
      obtain ⟨item, hitem, rfl⟩ := List.mem_map.mp hm
      exact Entry.spelling_foldBreaks_iff.mpr (hs item hitem)
    · intro folded hm
      obtain ⟨item, hitem, rfl⟩ := List.mem_map.mp hm
      exact all_isSpace_foldBreaks_iff.mpr (hp item hitem)
    · intro folded hm hnil
      rw [foldBreaks, ← List.map_tail] at hm
      obtain ⟨item, hitem, rfl⟩ := List.mem_map.mp hm
      exact ha item hitem (List.map_eq_nil_iff.mp hnil)
    · exact all_isSpace_foldBreaks_iff.mpr ht

theorem listing_foldBreaks_iff : Entry.Listing entries text.foldBreaks ↔
    ∃ layout : Layout, layout.IsWritten ∧ layout.text = text ∧ layout.entries = entries := by
  rw [listing_iff]
  constructor
  · rintro ⟨layout, hvalid, htext, rfl⟩
    obtain ⟨written, hwritten, rfl⟩ := exists_foldBreaks_eq htext
    exact ⟨written, isValid_foldBreaks_iff.mp hvalid, hwritten, written.entries_foldBreaks.symm⟩
  · rintro ⟨written, hw, rfl, rfl⟩
    exact ⟨written.foldBreaks, isValid_foldBreaks_iff.mpr hw, written.text_foldBreaks,
      written.entries_foldBreaks⟩

end Layout

namespace Cursor

variable {cursor : Cursor} {close : Nat} {name : Text}

/-- The source shows a tag with this name from the cursor to `close`, and `layout` behind it. -/
structure LaysOut (cursor : Cursor) (close : Nat) (name : Text) (layout : Layout) : Prop where
  opens : cursor.source[cursor.offset]? = some '['
  closes : cursor.ClosesTag close
  named : ∃ start, (cursor.tagText close).foldBreaks.NamedAt start name ∧
    layout.text = (cursor.tagText close).drop (start + name.length)
  ended : atTokenEnd layout.text
  written : layout.IsWritten

theorem readsTag_iff_laysOut {parameters : Parameters}
    (ho : cursor.source[cursor.offset]? = some '[') (hc : cursor.ClosesTag close) :
    (cursor.tagText close).foldBreaks.ReadsTag name parameters ↔
      ∃ layout, cursor.LaysOut close name layout ∧ layout.entries = parameters.entries := by
  constructor
  · intro h
    cases h with
    | @intro read start finish hn he hr =>
      have hl := Recognizer.run_parameters_content_iff.mp ⟨_, _, hr, rfl⟩
      rw [remaining, ← Text.foldBreaks_drop, Layout.listing_foldBreaks_iff] at hl
      rw [← Text.foldBreaks_drop, Recognizer.atTokenEnd_foldBreaks] at he
      obtain ⟨layout, hw, htext, hentries⟩ := hl
      exact ⟨layout, ⟨ho, hc, ⟨start, hn, htext⟩, htext ▸ he, hw⟩, hentries⟩
  · rintro ⟨layout, ⟨-, -, ⟨start, hn, htext⟩, he, hw⟩, hentries⟩
    have hl := Layout.listing_foldBreaks_iff.mpr ⟨layout, hw, htext, hentries⟩
    rw [Text.foldBreaks_drop] at hl
    rw [htext, ← Recognizer.atTokenEnd_foldBreaks, Text.foldBreaks_drop] at he
    obtain ⟨read, finish, hrun, rfl⟩ := (@Recognizer.run_parameters_content_iff parameters
      ⟨(cursor.tagText close).foldBreaks, start + name.length⟩).mpr hl
    exact .intro hn he hrun

/-- A tag is recognized exactly where the source lays it out. Its tokens stay on one line, except
that breaks between quotation marks are part of the value. -/
theorem run_bracketTag_iff_laysOut (cursor : Cursor) (found : Located Line) (stop : Nat) :
    cursor.run Recognizer.bracketTag = .matched found stop ↔
      ∃ close name, ∃ parameters : Parameters, ∃ layout, cursor.LaysOut close name layout ∧
        layout.entries = parameters.entries ∧
        found = cursor.located (.tag .bracket name parameters) stop ∧
        cursor.source.TagEnds close stop := by
  constructor
  · intro h
    have hpresent : cursor.run Recognizer.bracketTag ≠ .absent := by
      simp [h]
    rw [ne_eq, run_bracketTag_absent_iff, not_not] at hpresent
    obtain ⟨ho, place, hlt, hplace⟩ := hpresent
    obtain ⟨close, hc⟩ : ∃ close, cursor.ClosesTag close :=
      Text.exists_firstAt_iff.mpr ⟨place, hlt, Text.singleton_prefix_drop_iff.mpr hplace⟩
    obtain ⟨name, parameters, hread, hfound, hends⟩ := (hc.run_eq_matched_iff ho).mp h
    obtain ⟨layout, hlayout, hentries⟩ := (readsTag_iff_laysOut ho hc).mp hread
    exact ⟨close, name, parameters, layout, hlayout, hentries, hfound, hends⟩
  · rintro ⟨close, name, parameters, layout, hlayout, hentries, hfound, hends⟩
    have hread := (readsTag_iff_laysOut hlayout.opens hlayout.closes).mpr
      ⟨layout, hlayout, hentries⟩
    exact (hlayout.closes.run_eq_matched_iff hlayout.opens).mpr
      ⟨name, parameters, hread, hfound, hends⟩

/-- A value between quotation marks may be broken off and go on in the next line. -/
theorem run_bracketTag_broken_value :
    (Cursor.mk "[t k=\"a\nb\"]".toList 0).run Recognizer.bracketTag =
        .matched ⟨.tag .bracket ['t'] (.ofList [(['k'], .text "a b".toList)]),
          "[t k=\"a\nb\"]".toList, some (.ofSize 0 11)⟩ 11 ∧
      (Cursor.mk "[t k=\"a\nb\"]".toList 0).LaysOut 10 ['t']
        ⟨[⟨[' '], "k=\"a\nb\"".toList, (['k'], .text "a b".toList)⟩], []⟩ ∧
      Text.hasBreak "k=\"a\nb\"".toList := by
  have hk : Text.IsKey ['k'] := ⟨by decide, List.all_eq_true.mp rfl⟩
  have hspelled : Entry.FoldedSpelling (['k'], .text "a b".toList) "k=\"a\nb\"".toList :=
    @Entry.FoldedSpelling.broken ['k'] ['a', '\n', 'b'] '"' hk
      (List.mem_cons_of_mem _ List.mem_cons_self) (by decide) rfl
  refine ⟨by decide +kernel, ⟨rfl, ?_, ?_, rfl, ?_⟩, rfl⟩
  · exact (@Text.firstAt_drop_iff _ _ 1 9).mp (Text.find?_eq_some_iff.mp (by decide))
  · exact ⟨0, ⟨⟨'t', rfl, by decide⟩, by simp, by decide⟩, rfl⟩
  · constructor
    · intro item hm
      rw [List.mem_singleton.mp hm]
      exact hspelled
    · intro item hm
      rw [List.mem_singleton.mp hm]
      exact List.all_eq_true.mp rfl
    · simp
    · simp

end Cursor

end Playscript
