import Mathlib.Data.List.Nodup
import Playscript.Visitor

/-!
# Visits do not depend on the cache

Who handles a kind is settled by the levels of a visitor. The table of a level knows just the names
of all levels so far, and what was met before only decides what stands in the cache. So a run of
visits makes the calls of a traversal that chooses each time anew.
-/

namespace Playscript

variable {visitor parent : Visitor} {level : Level} {name member : Text} {choice : Choice}

namespace Text

theorem nodup_eraseDups (texts : List Text) : texts.eraseDups.Nodup := by
  induction hsize : texts.length using Nat.strongRecOn generalizing texts with
  | ind size ih =>
    cases texts with
    | nil => exact List.nodup_nil
    | cons text texts =>
      have hlength := List.length_filter_le (fun other => !other == text) texts
      rw [List.eraseDups_cons, List.nodup_cons]
      constructor
      · simp [List.mem_eraseDups]
      · exact ih _ (by rw [← hsize, List.length_cons]; omega) _ rfl

theorem insertSorted_perm (text : Text) (texts : List Text) :
    (insertSorted text texts).Perm (text :: texts) := by
  induction texts with
  | nil => exact .refl _
  | cons first rest ih =>
    rw [insertSorted]
    split
    · exact (ih.cons first).trans (.swap text first rest)
    · exact .refl _

theorem sorted_perm (texts : List Text) : (sorted texts).Perm texts.eraseDups := by
  unfold sorted
  induction texts.eraseDups with
  | nil => exact .refl _
  | cons text texts ih => exact (insertSorted_perm text _).trans (ih.cons text)

theorem nodup_sorted (texts : List Text) : (sorted texts).Nodup :=
  (sorted_perm texts).nodup_iff.mpr (nodup_eraseDups texts)

theorem mem_sorted {texts : List Text} {text : Text} : text ∈ sorted texts ↔ text ∈ texts := by
  rw [(sorted_perm texts).mem_iff, List.mem_eraseDups]

end Text

def Level.Defines (level : Level) (name : Text) : Prop := ∃ handler ∈ level, handler.name = name

def Level.Ends (level : Level) (handler : Handler) : Prop :=
  ∃ before after : Level, level = before ++ handler :: after ∧ ¬ after.Defines handler.name

namespace Handler

@[simp] theorem member_beq (handler : Handler) (name : Text) :
    (handler.member == mark ++ name) = (handler.name == name) := by
  simp [member]

theorem mark_append_notMem_base : mark ++ name ∉ Visitor.base.memberNames := by
  simp [Visitor.memberNames, mark]

end Handler

namespace Visitor

def levels : Visitor → List Level
  | base => []
  | extend parent level => parent.levels ++ [level]

theorem length_levels (visitor : Visitor) : visitor.levels.length = visitor.depth := by
  induction visitor with
  | base => rfl
  | extend parent level ih => rw [levels, List.length_append, ih]; rfl

structure Prefers (visitor : Visitor) (name : Text) (choice : Choice) : Prop where
  name_eq : choice.handler.name = name
  ends : ∃ level, visitor.levels[choice.level]? = some level ∧ level.Ends choice.handler
  deepest : ∀ (depth : Nat) (level : Level), choice.level < depth →
    visitor.levels[depth]? = some level → ¬ level.Defines name

/-- Who handles a kind: the handler of its name on the deepest level that has one, or nobody. -/
inductive Handles (visitor : Visitor) (kind : Kind) : Option Choice → Prop where
  | chosen {choice : Choice} (h : visitor.Prefers kind.name choice) : Handles visitor kind choice
  | unhandled (h : ∀ level ∈ visitor.levels, ¬ Level.Defines level kind.name) :
      Handles visitor kind none

theorem find?_reverse_eq_some_iff {handler : Handler} :
    level.reverse.find? (·.name == name) = some handler ↔
      handler.name = name ∧ level.Ends handler := by
  rw [List.find?_eq_some_iff_append, beq_iff_eq]
  apply and_congr_right
  rintro rfl
  constructor
  · rintro ⟨after, before, hlevel, hafter⟩
    refine ⟨before.reverse, after.reverse, ?_, ?_⟩
    · simpa using congrArg List.reverse hlevel
    · rintro ⟨other, hmem, hname⟩
      have hother := hafter other (List.mem_reverse.mp hmem)
      simp [hname] at hother
  · rintro ⟨before, after, rfl, hafter⟩
    refine ⟨after.reverse, before.reverse, by simp, ?_⟩
    intro other hmem
    have hne : other.name ≠ handler.name := fun hname =>
      hafter ⟨other, List.mem_reverse.mp hmem, hname⟩
    simpa using hne

theorem find?_reverse_eq_none_iff :
    level.reverse.find? (·.name == name) = none ↔ ¬ level.Defines name := by
  rw [List.find?_eq_none]
  constructor
  · rintro h ⟨handler, hmem, hname⟩
    exact h handler (List.mem_reverse.mpr hmem) (by simpa using hname)
  · intro h handler hmem hname
    exact h ⟨handler, List.mem_reverse.mp hmem, by simpa using hname⟩

theorem member?_extend (parent : Visitor) (level : Level) (name : Text) :
    (extend parent level).member? (Handler.mark ++ name) =
      ((level.reverse.find? (·.name == name)).map (⟨parent.depth, ·⟩)).or
        (parent.member? (Handler.mark ++ name)) := by
  simp only [member?, Handler.member_beq]
  cases level.reverse.find? (·.name == name) with
  | none => rfl
  | some handler => rfl

theorem Prefers.level_lt (h : visitor.Prefers name choice) :
    choice.level < visitor.levels.length := by
  obtain ⟨level, hlevel, -⟩ := h.ends
  exact (List.getElem?_eq_some_iff.mp hlevel).1

/-- The new level comes last, and the others keep their numbers. -/
theorem getElem?_levels_extend_iff {depth : Nat} {other : Level} :
    (extend parent level).levels[depth]? = some other ↔
      (depth = parent.levels.length ∧ other = level) ∨ parent.levels[depth]? = some other := by
  rw [levels]
  rcases Nat.lt_trichotomy depth parent.levels.length with hlt | rfl | hgt
  · rw [List.getElem?_append_left hlt]
    constructor
    · exact Or.inr
    · rintro (⟨rfl, -⟩ | h)
      · omega
      · exact h
  · simp [eq_comm]
  · have hlength : (parent.levels ++ [level]).length ≤ depth := by
      rw [List.length_append, List.length_singleton]
      omega
    rw [List.getElem?_eq_none hlength, List.getElem?_eq_none (Nat.le_of_lt hgt)]
    constructor
    · intro h
      cases h
    · rintro (⟨rfl, -⟩ | h)
      · omega
      · cases h

theorem prefers_extend_iff : (extend parent level).Prefers name choice ↔
    (choice.level = parent.levels.length ∧ choice.handler.name = name ∧
      level.Ends choice.handler) ∨
    (¬ level.Defines name ∧ parent.Prefers name choice) := by
  constructor
  · intro h
    obtain ⟨found, hfound, hends⟩ := h.ends
    rcases getElem?_levels_extend_iff.mp hfound with ⟨hlast, rfl⟩ | hold
    · exact Or.inl ⟨hlast, h.name_eq, hends⟩
    · have hlt := (List.getElem?_eq_some_iff.mp hold).1
      have hundefined : ¬ level.Defines name :=
        h.deepest _ level hlt (getElem?_levels_extend_iff.mpr (Or.inl ⟨rfl, rfl⟩))
      refine Or.inr ⟨hundefined, h.name_eq, ⟨found, hold, hends⟩, ?_⟩
      intro depth other hdepth hother
      exact h.deepest depth other hdepth (getElem?_levels_extend_iff.mpr (Or.inr hother))
  · rintro (⟨hlast, hname, hends⟩ | ⟨hundefined, h⟩)
    · refine ⟨hname, ⟨level, getElem?_levels_extend_iff.mpr (Or.inl ⟨hlast, rfl⟩), hends⟩, ?_⟩
      intro depth other hdepth hother
      rcases getElem?_levels_extend_iff.mp hother with ⟨hnew, -⟩ | hold
      · omega
      · have hlt := (List.getElem?_eq_some_iff.mp hold).1
        omega
    · obtain ⟨found, hfound, hends⟩ := h.ends
      refine ⟨h.name_eq, ⟨found, getElem?_levels_extend_iff.mpr (Or.inr hfound), hends⟩, ?_⟩
      intro depth other hdepth hother
      rcases getElem?_levels_extend_iff.mp hother with ⟨-, rfl⟩ | hold
      · exact hundefined
      · exact h.deepest depth other hdepth hold

theorem member?_eq_some_iff :
    visitor.member? (Handler.mark ++ name) = some choice ↔ visitor.Prefers name choice := by
  induction visitor with
  | base =>
    constructor
    · intro h
      cases h
    · intro h
      exact absurd h.level_lt (Nat.not_lt_zero _)
  | extend parent level ih =>
    rw [member?_extend, prefers_extend_iff, ← ih, length_levels]
    cases hfind : level.reverse.find? (·.name == name) with
    | none =>
      have hundefined := find?_reverse_eq_none_iff.mp hfind
      constructor
      · intro h
        exact Or.inr ⟨hundefined, h⟩
      · rintro (⟨-, hname, before, after, rfl, -⟩ | ⟨-, h⟩)
        · exact (hundefined ⟨choice.handler, by simp, hname⟩).elim
        · exact h
    | some handler =>
      obtain ⟨hname, hends⟩ := find?_reverse_eq_some_iff.mp hfind
      constructor
      · intro h
        obtain rfl := Option.some.inj h
        exact Or.inl ⟨rfl, hname, hends⟩
      · rintro (⟨hlevel, hother⟩ | ⟨hundefined, -⟩)
        · have heq := hfind.symm.trans (find?_reverse_eq_some_iff.mpr hother)
          rw [Option.some.inj heq, ← hlevel]
          rfl
        · obtain ⟨before, after, rfl, -⟩ := hends
          exact (hundefined ⟨handler, by simp, hname⟩).elim

theorem member?_eq_none_iff : visitor.member? (Handler.mark ++ name) = none ↔
    ∀ level ∈ visitor.levels, ¬ Level.Defines level name := by
  induction visitor with
  | base => simp [member?, levels]
  | extend parent level ih =>
    rw [member?_extend, Option.or_eq_none_iff, Option.map_eq_none_iff, find?_reverse_eq_none_iff,
      ih]
    constructor
    · rintro ⟨hlevel, hothers⟩ other hmem
      rcases List.mem_append.mp hmem with hmem | hmem
      · exact hothers other hmem
      · rw [List.mem_singleton.mp hmem]
        exact hlevel
    · intro h
      constructor
      · exact h level (List.mem_append_right _ List.mem_cons_self)
      · intro other hmem
        exact h other (List.mem_append_left _ hmem)

theorem handles_iff {kind : Kind} {chosen : Option Choice} :
    visitor.Handles kind chosen ↔ chosen = visitor.member? (Handler.mark ++ kind.name) := by
  constructor
  · intro h
    cases h with
    | chosen h => exact (member?_eq_some_iff.mpr h).symm
    | unhandled h => exact (member?_eq_none_iff.mpr h).symm
  · rintro rfl
    cases h : visitor.member? (Handler.mark ++ kind.name) with
    | none => exact .unhandled (member?_eq_none_iff.mp h)
    | some choice => exact .chosen (member?_eq_some_iff.mp h)

/-- Members of the base are no handlers, and the others are those of the levels. -/
theorem mem_memberNames_iff : Handler.mark ++ name ∈ visitor.memberNames ↔
    ∃ level ∈ visitor.levels, Level.Defines level name := by
  induction visitor with
  | base =>
    constructor
    · intro h
      exact absurd h Handler.mark_append_notMem_base
    · rintro ⟨level, hmem, -⟩
      cases hmem
  | extend parent level ih =>
    rw [memberNames, List.mem_append, ih, List.mem_map, levels]
    constructor
    · rintro (⟨handler, hmem, hmember⟩ | ⟨other, hmem, hother⟩)
      · refine ⟨level, by simp, handler, hmem, ?_⟩
        exact List.append_cancel_left hmember
      · exact ⟨other, List.mem_append_left _ hmem, hother⟩
    · rintro ⟨other, hmem, hother⟩
      rcases List.mem_append.mp hmem with hmem | hmem
      · exact Or.inr ⟨other, hmem, hother⟩
      · obtain rfl := List.mem_singleton.mp hmem
        obtain ⟨handler, hhandler, rfl⟩ := hother
        exact Or.inl ⟨handler, hhandler, rfl⟩

end Visitor

namespace Table

variable {members : List Text}

theorem mem_ofMembers_iff :
    (name, member) ∈ ofMembers members ↔ member ∈ members ∧ member = Handler.mark ++ name := by
  rw [ofMembers, List.mem_filterMap]
  constructor
  · rintro ⟨other, hmem, h⟩
    split at h
    · cases h
    · obtain ⟨rest, hrest, heq⟩ := Option.map_eq_some_iff.mp h
      cases heq
      exact ⟨hmem, Text.after?_eq_some_iff.mp hrest⟩
  · rintro ⟨hmem, rfl⟩
    refine ⟨_, hmem, ?_⟩
    rw [if_neg (by simp [Handler.mark]), Text.after?_append]
    rfl

theorem nodup_keys_ofMembers (h : members.Nodup) : ((ofMembers members).map Prod.fst).Nodup := by
  have hentries : (ofMembers members).Nodup := by
    apply h.filterMap
    intro first second entry hfirst hsecond
    split at hfirst
    · cases hfirst
    · split at hsecond
      · cases hsecond
      · obtain ⟨_, -, rfl⟩ := Option.map_eq_some_iff.mp hfirst
        obtain ⟨_, -, heq⟩ := Option.map_eq_some_iff.mp hsecond
        exact (congrArg Prod.snd heq).symm
  apply hentries.map_on
  rintro ⟨name, member⟩ hentry ⟨name', member'⟩ hentry' rfl
  rw [(mem_ofMembers_iff.mp hentry).2, (mem_ofMembers_iff.mp hentry').2]

end Table

namespace Visitor

theorem mem_table_iff : (name, member) ∈ visitor.table ↔
    member = Handler.mark ++ name ∧ ∃ level ∈ visitor.levels, Level.Defines level name := by
  cases visitor with
  | base => simp [table, levels]
  | extend parent level =>
    rw [table, Table.mem_ofMembers_iff, Text.mem_sorted, and_comm]
    apply and_congr_right
    rintro rfl
    exact mem_memberNames_iff

theorem nodup_keys_table (visitor : Visitor) : (visitor.table.map Prod.fst).Nodup := by
  cases visitor with
  | base => exact List.nodup_nil
  | extend parent level => exact Table.nodup_keys_ofMembers (Text.nodup_sorted _)

/-- The table never misses a level, and never names a member that is not there. -/
theorem choose_eq (visitor : Visitor) (kind : Kind) :
    visitor.choose kind = .ok (visitor.member? (Handler.mark ++ kind.name)) := by
  unfold choose
  cases hl : visitor.table.lookup kind.name with
  | none =>
    -- A level that defines the name would have put it into the table.
    have hundefined : ∀ level ∈ visitor.levels, ¬ Level.Defines level kind.name := by
      intro level hlevel hdefines
      have hmem := mem_table_iff.mpr ⟨rfl, level, hlevel, hdefines⟩
      have hne := List.lookup_eq_none_iff.mp hl _ hmem
      simp at hne
    rw [member?_eq_none_iff.mpr hundefined]
  | some member =>
    obtain ⟨before, after, hsplit, -⟩ := List.lookup_eq_some_iff.mp hl
    have hmem : (kind.name, member) ∈ visitor.table := by simp [hsplit]
    obtain ⟨rfl, level, hlevel, hdefines⟩ := mem_table_iff.mp hmem
    cases hm : visitor.member? (Handler.mark ++ kind.name) with
    | none => exact absurd hdefines (member?_eq_none_iff.mp hm level hlevel)
    | some choice => simp [hm]

end Visitor

namespace Node

variable (handlerOf : Kind → Option Choice)

/-- What a traversal meets: the node, and then the lines of a script, unless someone handles scripts
and does not descend. -/
def met : Node → List (Kind × Text)
  | document ⟨.empty, raw, _⟩ => [(.empty, raw)]
  | document ⟨.script lines, raw, _⟩ =>
    (.script, raw) ::
      match handlerOf .script with
      | some ⟨_, ⟨_, false⟩⟩ => []
      | _ => lines.map fun line => (line.content.kind, line.raw)
  | line l => [(l.content.kind, l.raw)]
  | token t => [(t.content.kind, t.raw)]

def calls (node : Node) : List Call :=
  (node.met handlerOf).filterMap fun met =>
    (handlerOf met.1).map fun choice => ⟨choice.level, choice.handler.name, met.2⟩

def answer (node : Node) : Answer :=
  match handlerOf node.kind with
  | some ⟨level, ⟨name, false⟩⟩ => .taken level name
  | _ => .same

theorem met_eq (node : Node) : node.met handlerOf = (node.kind, node.raw) ::
    (if Choice.descends (handlerOf node.kind) then node.lines?.getD [] else []).map
      fun line => (line.content.kind, line.raw) := by
  match node with
  | document ⟨.empty, raw, span⟩ =>
    simp only [lines?, Document.lines, Option.getD_some, ite_self]
    rfl
  | document ⟨.script lines, raw, span⟩ =>
    simp only [met, kind, Node.raw, lines?, Document.kind, Document.lines, Option.getD_some]
    match handlerOf .script with
    | none => rfl
    | some ⟨level, name, false⟩ => rfl
    | some ⟨level, name, true⟩ => rfl
  | line l =>
    simp only [lines?, Option.getD_none, ite_self]
    rfl
  | token t =>
    simp only [lines?, Option.getD_none, ite_self]
    rfl

theorem answer_eq (node : Node) : node.answer handlerOf = Choice.answer (handlerOf node.kind) := by
  unfold answer
  match handlerOf node.kind with
  | none => rfl
  | some ⟨level, name, false⟩ => rfl
  | some ⟨level, name, true⟩ => rfl

end Node

structure Cache.Records (handlerOf : Kind → Option Choice) (cache : Cache) (kinds : List Kind) :
    Prop where
  nodup : (cache.map Prod.fst).Nodup
  mem_iff : ∀ kind, kind ∈ cache.map Prod.fst ↔ kind ∈ kinds
  handler_eq : ∀ entry ∈ cache, entry.2 = handlerOf entry.1

namespace Visitor

variable {handlerOf : Kind → Option Choice} {cache : Cache} {kinds : List Kind}

theorem records_nil : Cache.Records handlerOf [] [] := by
  constructor
  · exact List.nodup_nil
  · simp
  · simp

/-- Whether the kind was met before or not, the choice is the same, and the cache knows it next. -/
theorem dispatch_records (hh : ∀ kind, visitor.choose kind = .ok (handlerOf kind))
    (h : cache.Records handlerOf kinds) (kind : Kind) :
    ∃ next, visitor.dispatch cache kind = .ok (handlerOf kind, next) ∧
      next.Records handlerOf (kinds ++ [kind]) := by
  unfold dispatch
  cases hl : cache.lookup kind with
  | some chosen =>
    obtain ⟨before, after, hsplit, -⟩ := List.lookup_eq_some_iff.mp hl
    have hmem : (kind, chosen) ∈ cache := by simp [hsplit]
    refine ⟨cache, by rw [← h.handler_eq _ hmem], h.nodup, ?_, h.handler_eq⟩
    intro other
    rw [h.mem_iff, List.mem_append, List.mem_singleton]
    constructor
    · exact Or.inl
    · rintro (hother | rfl)
      · exact hother
      · exact (h.mem_iff _).mp (List.mem_map_of_mem hmem)
  | none =>
    have hnew : kind ∉ cache.map Prod.fst := by
      intro hmem
      obtain ⟨entry, hentry, rfl⟩ := List.mem_map.mp hmem
      have hne := List.lookup_eq_none_iff.mp hl entry hentry
      simp at hne
    refine ⟨(kind, handlerOf kind) :: cache, by rw [hh]; rfl, ?_, ?_, ?_⟩
    · exact List.nodup_cons.mpr ⟨hnew, h.nodup⟩
    · intro other
      rw [List.map_cons, List.mem_cons, h.mem_iff, List.mem_append, List.mem_singleton, or_comm]
    · intro entry hmem
      rcases List.mem_cons.mp hmem with rfl | hmem
      · rfl
      · exact h.handler_eq entry hmem

theorem visitLines_records (hh : ∀ kind, visitor.choose kind = .ok (handlerOf kind))
    (lines : List (Located Line)) (h : cache.Records handlerOf kinds) :
    ∃ next, visitor.visitLines cache lines = .ok (lines.filterMap fun line =>
        (handlerOf line.content.kind).map (·.call line.raw), next) ∧
      next.Records handlerOf (kinds ++ lines.map (·.content.kind)) := by
  induction lines generalizing cache kinds with
  | nil => exact ⟨cache, rfl, by simpa using h⟩
  | cons line lines ih =>
    obtain ⟨next, hchoice, hnext⟩ := dispatch_records hh h line.content.kind
    obtain ⟨last, hcalls, hlast⟩ := ih hnext
    rw [List.append_assoc] at hlast
    refine ⟨last, ?_, hlast⟩
    rw [visitLines, hchoice]
    simp only [bind, Except.bind, hcalls, List.filterMap_cons]
    cases handlerOf line.content.kind with
    | none => rfl
    | some choice => rfl

theorem visit_records (hh : ∀ kind, visitor.choose kind = .ok (handlerOf kind))
    (h : cache.Records handlerOf kinds) (node : Node) :
    ∃ visit, visitor.visit cache node = .ok visit ∧ visit.calls = node.calls handlerOf ∧
      visit.answer = node.answer handlerOf ∧
      visit.cache.Records handlerOf (kinds ++ (node.met handlerOf).map Prod.fst) := by
  obtain ⟨next, hchoice, hnext⟩ := dispatch_records hh h node.kind
  obtain ⟨last, hlines, hlast⟩ := visitLines_records hh
    (if Choice.descends (handlerOf node.kind) then node.lines?.getD [] else []) hnext
  rw [List.append_assoc] at hlast
  refine ⟨_, by simp only [visit, hchoice, bind, Except.bind, hlines]; rfl, ?_, ?_, ?_⟩
  · rw [Node.calls, Node.met_eq, List.filterMap_cons, List.filterMap_map]
    cases handlerOf node.kind with
    | none => rfl
    | some choice => rfl
  · exact (Node.answer_eq handlerOf node).symm
  · rw [Node.met_eq, List.map_cons, List.map_map]
    exact hlast

/-- However many visits there were before, each next one calls and answers like a fresh one. -/
theorem visitAll_records (hh : ∀ kind, visitor.choose kind = .ok (handlerOf kind))
    (nodes : List Node) (h : cache.Records handlerOf kinds) :
    ∃ visits, visitor.visitAll cache nodes = .ok visits ∧
      visits.map Visit.calls = nodes.map (Node.calls handlerOf) ∧
      visits.map Visit.answer = nodes.map (Node.answer handlerOf) ∧
      ∀ (count : Nat) (visit : Visit), visits[count]? = some visit →
        visit.cache.Records handlerOf (kinds ++ ((nodes.take (count + 1)).flatMap
          (Node.met handlerOf)).map Prod.fst) := by
  induction nodes generalizing cache kinds with
  | nil => exact ⟨[], rfl, rfl, rfl, by simp⟩
  | cons node nodes ih =>
    obtain ⟨first, hfirst, hcalls, hanswer, hcache⟩ := visit_records hh h node
    obtain ⟨others, hothers, hlater, hanswers, hcaches⟩ := ih hcache
    refine ⟨first :: others, ?_, ?_, ?_, ?_⟩
    · rw [visitAll, hfirst]
      simp only [bind, Except.bind, hothers]
      rfl
    · rw [List.map_cons, List.map_cons, hcalls, hlater]
    · rw [List.map_cons, List.map_cons, hanswer, hanswers]
    · intro count visit hvisit
      cases count with
      | zero =>
        obtain rfl := Option.some.inj hvisit
        simpa using hcache
      | succ count =>
        have hrecords := hcaches count visit hvisit
        simpa [List.append_assoc] using hrecords

/-- The levels alone say who handles a kind: the handler of its name on the deepest level that has
one, and the table lists the names that some level has, each with its member. No visit fails. Visit
by visit, the calls are those of a traversal in preorder that asks the levels anew at each node,
whatever was visited before. The cache then holds one entry for each kind met, and that entry is
what the levels say. -/
theorem visitAll_uncached (visitor : Visitor) (targets : List Node) :
    (visitor.table.map Prod.fst).Nodup ∧
    (∀ name member, (name, member) ∈ visitor.table ↔ member = "visit_".toList ++ name ∧
      ∃ level ∈ visitor.levels, Level.Defines level name) ∧
    ∃ handlerOf : Kind → Option Choice,
      (∀ kind chosen, visitor.Handles kind chosen ↔ chosen = handlerOf kind) ∧
      (∀ kind, handlerOf kind = none ↔ kind.name ∉ visitor.table.map Prod.fst) ∧
      ∃ visits, visitor.visitAll [] targets = .ok visits ∧
        visits.map Visit.calls = targets.map (Node.calls handlerOf) ∧
        visits.map Visit.answer = targets.map (Node.answer handlerOf) ∧
        ∀ (count : Nat) (visit : Visit), visits[count]? = some visit →
          visit.cache.Records handlerOf
            (((targets.take (count + 1)).flatMap (Node.met handlerOf)).map Prod.fst) := by
  refine ⟨nodup_keys_table visitor, fun _ _ => mem_table_iff,
    fun kind => visitor.member? (Handler.mark ++ kind.name), ?_, ?_, ?_⟩
  · intro kind chosen
    exact handles_iff
  · intro kind
    simp [mem_table_iff, member?_eq_none_iff]
  · exact visitAll_records (choose_eq visitor) targets records_nil

theorem visitAll_uncached_reused : ∃ visits,
    (ofLevels [[⟨"Label".toList, false⟩, ⟨"Scenario".toList, true⟩],
      [⟨"Label".toList, true⟩]]).visitAll []
      [.line ⟨.label ['a'] none, ['*', 'a'], none⟩,
       .document ⟨.script [⟨.label ['b'] none, ['*', 'b'], none⟩, ⟨.narration, ['#'], none⟩],
        ['s'], none⟩,
       .document ⟨.empty, [], none⟩] = .ok visits ∧
    visits.map Visit.calls = [[⟨1, "Label".toList, ['*', 'a']⟩],
      [⟨0, "Scenario".toList, ['s']⟩, ⟨1, "Label".toList, ['*', 'b']⟩], []] ∧
    ∃ handlerOf : Kind → Option Choice,
      handlerOf .label = some ⟨1, ⟨"Label".toList, true⟩⟩ ∧ handlerOf .narration = none ∧
      ∃ visit, visits[1]? = some visit ∧
        visit.cache.Records handlerOf [.label, .script, .label, .narration] := by
  obtain ⟨-, -, handlerOf, hhandles, hunhandled, visits, hrun, -, -, hrecords⟩ := visitAll_uncached
    (ofLevels [[⟨"Label".toList, false⟩, ⟨"Scenario".toList, true⟩], [⟨"Label".toList, true⟩]])
    [.line ⟨.label ['a'] none, ['*', 'a'], none⟩,
     .document ⟨.script [⟨.label ['b'] none, ['*', 'b'], none⟩, ⟨.narration, ['#'], none⟩],
      ['s'], none⟩,
     .document ⟨.empty, [], none⟩]
  have hscript := (hhandles .script _).mp (handles_iff.mpr rfl)
  have hlabel := (hhandles .label _).mp (handles_iff.mpr rfl)
  have hnarration := (hunhandled .narration).mpr (by decide +kernel)
  obtain rfl := Except.ok.inj hrun
  refine ⟨_, rfl, rfl, handlerOf, hlabel.symm, hnarration, _, rfl, ?_⟩
  have hcache := hrecords 1 _ rfl
  simp only [List.take, List.flatMap_cons, Node.met, ← hscript] at hcache
  exact hcache

end Visitor

end Playscript
