import Mathlib.Algebra.Order.Ring.Nat
import Mathlib.Data.Finset.Card
import Mathlib.Data.List.SplitBy
import ModelPreview.Proofs.Expansion.Contents

/-!
# The layout of printed members

Members can be cut in exactly one way into runs that are as long as possible, each of them of one
group. A declaration with members is printed run by run with a blank line between two runs, whatever
the order of its members. In an expansion the members of a declaration come group by group, so each
group that occurs is one run.
-/

namespace ModelPreview.Generated

/-- Members cut into runs: the members of a run are of one group, and from each run to the next the
group changes. -/
structure MaximalRuns (members : List Member) (runs : List (List Member)) : Prop where
  flatten : runs.flatten = members
  nonempty : [] ∉ runs
  alike : ∀ run ∈ runs, ∀ m ∈ run, ∀ n ∈ run, m.group = n.group
  apart : runs.IsChain fun run next => ∀ m ∈ run, ∀ n ∈ next, m.group ≠ n.group

namespace MaximalRuns

variable {members : List Member} {run : List Member} {runs : List (List Member)}

/-- Members of one group at each step are of one group throughout, so cutting where the group
changes gives the runs. -/
theorem iff_splitBy :
    MaximalRuns members runs ↔
      members.splitBy (fun m n => decide (m.group = n.group)) = runs := by
  rw [List.splitBy_eq_iff]
  simp only [decide_eq_true_eq, decide_eq_false_iff_not]
  constructor
  · rintro ⟨hflatten, hnonempty, halike, hapart⟩
    have hne {run : List Member} (hrun : run ∈ runs) : run ≠ [] := fun h => hnonempty (h ▸ hrun)
    refine ⟨hflatten.symm, hnonempty, fun run hrun => ?_, ?_⟩
    · exact (List.pairwise_of_forall_mem_list (halike run hrun)).isChain
    · refine List.IsChain.imp_of_mem_imp (fun run next hrun hnext h => ?_) hapart
      exact ⟨hne hrun, hne hnext, h _ (List.getLast_mem _) _ (List.head_mem _)⟩
  · rintro ⟨hflatten, hnonempty, hsteps, hapart⟩
    have halike : ∀ run ∈ runs, ∀ m ∈ run, ∀ n ∈ run, m.group = n.group := by
      intro run hrun
      let R (m n : Member) : Prop := m.group = n.group
      have : Std.Symm R := ⟨fun _ _ => Eq.symm⟩
      have : Trans R R R := ⟨Eq.trans⟩
      have hpairwise : run.Pairwise R := List.isChain_iff_pairwise.mp (hsteps run hrun)
      have hself : ∀ m ∈ run, R m m := fun _ _ => rfl
      exact fun m hm n hn => hpairwise.forall_of_forall hself hm hn
    refine ⟨hflatten.symm, hnonempty, halike, ?_⟩
    refine List.IsChain.imp_of_mem_imp (fun run next hrun hnext h => ?_) hapart
    obtain ⟨hne, hne', hchange⟩ := h
    intro m hm n hn
    rw [halike run hrun m hm _ (List.getLast_mem hne), halike next hnext n hn _ (List.head_mem hne')]
    exact hchange

theorem existsUnique (members : List Member) : ∃! runs, MaximalRuns members runs :=
  ⟨_, iff_splitBy.mpr rfl, fun _ h => (iff_splitBy.mp h).symm⟩

theorem tail (h : MaximalRuns members (run :: runs)) : MaximalRuns runs.flatten runs where
  flatten := rfl
  nonempty := fun hmem => h.nonempty (List.mem_cons_of_mem _ hmem)
  alike := fun other hmem => h.alike other (List.mem_cons_of_mem _ hmem)
  apart := h.apart.tail

/-- The first run is not empty. -/
theorem exists_cons (h : MaximalRuns members (run :: runs)) : ∃ m rest, run = m :: rest :=
  List.exists_cons_of_ne_nil fun hempty => h.nonempty (by simp [hempty])

theorem alike_head {m : Member} {rest : List Member} (h : MaximalRuns members ((m :: rest) :: runs))
    {n : Member} (hn : n ∈ rest) : n.group = m.group :=
  h.alike _ List.mem_cons_self n (List.mem_cons_of_mem _ hn) m List.mem_cons_self

end MaximalRuns

namespace Declaration

variable {indent : String} {members : List Member} {run : List Member} {runs : List (List Member)}

/-- The lines of the members of one run. -/
def runLines (indent : String) (run : List Member) : String :=
  String.join (run.map fun m => indent ++ m.text ++ "\n")

@[simp] theorem runLines_nil : runLines indent [] = "" := rfl

@[simp] theorem runLines_cons (m : Member) (rest : List Member) :
    runLines indent (m :: rest) = memberLine indent m ++ runLines indent rest := by
  simp [runLines, memberLine, String.join_cons]

/-- Behind a member of their own group, members are printed without blank lines. -/
theorem linesAfter_append {group : Group} {rest : List Member}
    (h : ∀ m ∈ run, m.group = group) :
    linesAfter indent group (run ++ rest) =
      runLines indent run ++ linesAfter indent group rest := by
  induction run with
  | nil => simp
  | cons m run ih =>
      have hm : m.group = group := h m (by simp)
      have hrest := ih fun n hn => h n (by simp [hn])
      simp only [List.cons_append, linesAfter, hm, if_true, String.empty_append, hrest,
        runLines_cons, String.append_assoc]

/-- What is printed behind the first run starts with a blank line, if there is anything. -/
theorem runLines_append_linesAfter {m : Member} {rest : List Member}
    (h : MaximalRuns members ((m :: rest) :: runs)) :
    runLines indent (m :: rest) ++ linesAfter indent m.group runs.flatten =
      "\n".intercalate (((m :: rest) :: runs).map (runLines indent)) := by
  -- The state of the printer is the group of the run before, so the run is part of the induction.
  induction runs generalizing m rest members with
  | nil => simp [linesAfter]
  | cons next others ih =>
      obtain ⟨n, nexts, rfl⟩ := h.tail.exists_cons
      have hchange : n.group ≠ m.group := (h.apart.rel m (by simp) n (by simp)).symm
      have hnext := ih h.tail
      rw [List.flatten_cons, List.cons_append, linesAfter, if_neg hchange,
        linesAfter_append fun _ => h.tail.alike_head, List.map_cons, List.map_cons,
        String.intercalate_cons_cons, ← List.map_cons, ← hnext]
      simp only [runLines_cons, String.append_assoc]

/-- Members are printed run by run, with a blank line between two runs. -/
theorem memberLines_eq (h : MaximalRuns members runs) :
    memberLines indent members = "\n".intercalate (runs.map (runLines indent)) := by
  obtain rfl := h.flatten
  cases runs with
  | nil => rfl
  | cons run runs =>
      obtain ⟨m, rest, rfl⟩ := h.exists_cons
      rw [← runLines_append_linesAfter h, List.flatten_cons, List.cons_append, memberLines,
        linesAfter_append fun _ => h.alike_head, runLines_cons, String.append_assoc]

/-- How a declaration is printed if it has members: there is one way to cut them into runs, and the
runs stand between the braces with a blank line between two of them. -/
structure PrintsRuns (indent : String) (g : Declaration) : Prop where
  existsUnique : ∃! runs, MaximalRuns g.members runs
  text : ∀ runs, MaximalRuns g.members runs →
    g.text indent = g.header ++ " \x7b\n" ++ "\n".intercalate (runs.map (runLines indent)) ++ "\x7d"

theorem printsRuns (indent : String) {g : Declaration} (hmembers : g.members ≠ []) :
    g.PrintsRuns indent := by
  refine ⟨MaximalRuns.existsUnique g.members, fun runs hruns => ?_⟩
  rw [text, if_neg (by simpa using hmembers), memberLines_eq hruns]

end Declaration

theorem Group.rank_inj {a b : Group} : a.rank = b.rank ↔ a = b := by
  cases a <;> cases b <;> decide

/-- Members in the order of their groups. -/
def Ordered (members : List Member) : Prop :=
  members.Pairwise fun m n => m.group.rank ≤ n.group.rank

/-- The groups that occur among members. -/
def groups (members : List Member) : Finset Group :=
  (members.map Member.group).toFinset

namespace MaximalRuns

variable {members : List Member} {runs : List (List Member)}

/-- The group of the first run does not occur again. -/
theorem group_ne_of_mem {m n : Member} {rest : List Member}
    (h : MaximalRuns members ((m :: rest) :: runs)) (hordered : Ordered members)
    (hn : n ∈ runs.flatten) : m.group ≠ n.group := by
  obtain rfl := h.flatten
  cases runs with
  | nil => cases hn
  | cons next others =>
      obtain ⟨k, ks, rfl⟩ := h.tail.exists_cons
      have hchange : m.group ≠ k.group := h.apart.rel m (by simp) k (by simp)
      have hlater := (List.pairwise_append.mp hordered).2
      have hmk : m.group.rank ≤ k.group.rank := hlater.2 m (by simp) k (by simp)
      have hkn : k.group.rank ≤ n.group.rank := by
        rcases List.mem_cons.mp hn with rfl | hn
        · exact Nat.le_refl _
        · exact List.rel_of_pairwise_cons hlater.1 hn
      have hlt := Nat.lt_of_le_of_ne hmk (mt Group.rank_inj.mp hchange)
      exact fun hsame => absurd (hsame ▸ hkn) (Nat.not_le_of_lt hlt)

/-- Ordered members have one run for each group that occurs. -/
theorem length_eq (h : MaximalRuns members runs) (hordered : Ordered members) :
    runs.length = (groups members).card := by
  induction runs generalizing members with
  | nil =>
      obtain rfl := h.flatten
      rfl
  | cons run runs ih =>
      obtain ⟨m, rest, rfl⟩ := h.exists_cons
      have hnew : m.group ∉ groups runs.flatten := by
        simp only [groups, List.mem_toFinset, List.mem_map, not_exists, not_and]
        exact fun n hn => (h.group_ne_of_mem hordered hn).symm
      have hgroups : groups members = insert m.group (groups runs.flatten) := by
        obtain rfl := h.flatten
        have hfirst : ((m :: rest).map Member.group).toFinset = {m.group} := by
          ext group
          simp only [List.mem_toFinset, List.mem_map, Finset.mem_singleton]
          constructor
          · rintro ⟨n, hn, rfl⟩
            exact h.alike _ List.mem_cons_self n hn m List.mem_cons_self
          · rintro rfl
            exact ⟨m, List.mem_cons_self, rfl⟩
        rw [groups, List.flatten_cons, List.map_append, List.toFinset_append, hfirst,
          ← Finset.insert_eq]
        rfl
      obtain rfl := h.flatten
      rw [hgroups, Finset.card_insert_of_notMem hnew, List.length_cons,
        ih h.tail (List.pairwise_append.mp hordered).2.1]

end MaximalRuns

/-- How many line breaks there are in a text. -/
def lineBreaks (text : String) : Nat :=
  text.toList.count '\n'

@[simp] theorem lineBreaks_append (s t : String) :
    lineBreaks (s ++ t) = lineBreaks s + lineBreaks t := by
  simp [lineBreaks]

/-- Texts that are put together with line breaks have one fewer between them than there are. -/
theorem lineBreaks_intercalate {texts : List String} (hne : texts ≠ []) :
    lineBreaks ("\n".intercalate texts) + 1 = (texts.map lineBreaks).sum + texts.length := by
  induction texts with
  | nil => exact absurd rfl hne
  | cons t rest ih =>
      cases rest with
      | nil => simp
      | cons u others =>
          have hrest := ih (List.cons_ne_nil u others)
          have hbreak : lineBreaks "\n" = 1 := by decide
          rw [String.intercalate_cons_cons, lineBreaks_append, lineBreaks_append, hbreak,
            List.map_cons, List.sum_cons, List.length_cons]
          omega

namespace Declaration

variable {indent : String} {g : Declaration} {runs : List (List Member)}

theorem lineBreaks_runLines (indent : String) (run : List Member) :
    lineBreaks (runLines indent run) =
      (run.map fun m => lineBreaks (memberLine indent m)).sum := by
  induction run with
  | nil => rfl
  | cons m rest ih => rw [runLines_cons, lineBreaks_append, ih, List.map_cons, List.sum_cons]

/-- Beside the line breaks of the header and of the members, there is one for each run but one. -/
theorem lineBreaks_text (hmembers : g.members ≠ []) (h : MaximalRuns g.members runs) :
    lineBreaks (g.text indent) + 1 =
      lineBreaks (g.header ++ " \x7b\n") +
        (g.members.map fun m => lineBreaks (memberLine indent m)).sum + runs.length := by
  have hruns : runs.map (runLines indent) ≠ [] := by
    have hflatten := h.flatten
    rintro hempty
    rw [List.map_eq_nil_iff.mp hempty] at hflatten
    exact hmembers hflatten.symm
  have hsum : ((runs.map (runLines indent)).map lineBreaks).sum =
      (g.members.map fun m => lineBreaks (memberLine indent m)).sum := by
    rw [← h.flatten, List.map_flatten, List.sum_flatten, List.map_map, List.map_map]
    exact congrArg List.sum (List.map_congr_left fun run _ => lineBreaks_runLines indent run)
  have hbetween := lineBreaks_intercalate hruns
  have hend : lineBreaks "\x7d" = 0 := by decide
  rw [(printsRuns indent hmembers).text runs h, lineBreaks_append, lineBreaks_append, hend,
    ← hsum]
  rw [List.length_map] at hbetween
  omega

end Declaration

/-- Members of one group, and behind them members of a group that is not an earlier one. -/
theorem ordered_append {ms ns : List Member} {a b : Group} (hms : ∀ m ∈ ms, m.group = a)
    (hns : ∀ n ∈ ns, n.group = b) (hab : a.rank ≤ b.rank) : Ordered (ms ++ ns) := by
  refine List.pairwise_append.mpr ⟨?_, ?_, fun m hm n hn => ?_⟩
  · refine List.pairwise_of_forall_mem_list fun m hm n hn => ?_
    rw [hms m hm, hms n hn]
  · refine List.pairwise_of_forall_mem_list fun m hm n hn => ?_
    rw [hns m hm, hns n hn]
  · rw [hms m hm, hns n hn]
    exact hab

/-- The members of each part of an expansion come group by group. -/
theorem ordered_members_generated {o : Options} {m : ModelClass} {rs : List ResolvedField}
    (r : Role) : Ordered (m.generated o rs r).members := by
  cases r with
  | protocol =>
      have hassociated : ∀ a ∈ (ResolvedField.targets rs).names.map
          (fun name => Member.associatedType name (o.naming.protocolName name)),
          a.group = .associatedTypes := by
        simp [Member.group]
      have hrequired : ∀ p ∈ rs.map ResolvedField.requirement, p.group = .properties := by
        simp [ResolvedField.requirement, Member.group]
      exact ordered_append hassociated hrequired (by decide)
  | observableProtocol => exact List.Pairwise.nil
  | variant v =>
      have hstored : ∀ p ∈ rs.map (ResolvedField.storedProperty (o.naming.variantName v)),
          p.group = .properties := by
        simp [ResolvedField.storedProperty, Member.group]
      rw [ModelClass.members_generated_variant]
      refine ordered_append (b := .initializers) hstored (fun i hi => ?_) (by decide)
      rw [List.mem_singleton.mp hi]
      rfl

namespace Declaration

/-- How a declaration is printed whose members come group by group: each group that occurs is one
run. So if there are members, then the blank lines, which are the line breaks of neither the header
nor a member, are one fewer than the groups. -/
structure SeparatesGroups (indent : String) (g : Declaration) : Prop where
  ordered : Ordered g.members
  length_runs : ∀ runs, MaximalRuns g.members runs → runs.length = (groups g.members).card
  lineBreaks : g.members ≠ [] →
    lineBreaks (g.text indent) + 1 =
      lineBreaks (g.header ++ " \x7b\n") +
        (g.members.map fun m => lineBreaks (memberLine indent m)).sum + (groups g.members).card

/-- A declaration with members is printed run by run, with blank lines between the runs and nowhere
else, and in an expansion these are the blank lines between groups. -/
theorem blank_lines_separate_runs (indent : String) :
    (∀ g : Declaration, g.members ≠ [] → g.PrintsRuns indent) ∧
      ∀ (o : Options) (d : ModelPreview.Declaration) (e : Expansion),
        (d.expand o).result = .ok e → ∀ g ∈ e.declarations, g.SeparatesGroups indent := by
  refine ⟨fun g => printsRuns indent, fun o d e he g hg => ?_⟩
  obtain ⟨m, rs, -, -, rfl⟩ := ModelPreview.Declaration.result_expand_eq_ok_iff.mp he
  obtain ⟨r, -, rfl⟩ := ModelClass.mem_declarations_expansion.mp hg
  have hordered : Ordered (m.generated o rs r).members := ordered_members_generated r
  refine ⟨hordered, fun runs hruns => hruns.length_eq hordered, fun hmembers => ?_⟩
  obtain ⟨runs, hruns, -⟩ := MaximalRuns.existsUnique (m.generated o rs r).members
  rw [← hruns.length_eq hordered, lineBreaks_text hmembers hruns]

/-- A struct whose members go back to a group that they have left. -/
def unsorted : Declaration where
  attributes := []
  modifiers := []
  kind := .struct
  name := "Unsorted"
  inherited := []
  whereClause := []
  members :=
    [.storedProperty .var "a" "Int" none, .storedProperty .let "b" "Int" (some "1"),
      .associatedType "T" "P", .storedProperty .var "c" "T" none]

/-- A model with a relationship, so that its protocol has members of two groups. -/
def gallery : ModelPreview.Declaration where
  kind := .class
  name := "Gallery"
  attributes := [⟨"Model", none⟩]
  members :=
    [.field ⟨[⟨"Relationship", none⟩], .var,
        [⟨.identifier "rooms", some (.array (.named "Room")), none⟩]⟩,
      .initializer ⟨[], [], "", none, "\x7b\x7d"⟩]

/-- Runs of the same group that are apart are not joined, and the protocol of the model has one
blank line. -/
theorem unsorted_and_gallery_separated :
    unsorted.members ≠ [] ∧
      unsorted.text "  " = "struct Unsorted \x7b\n  var a: Int\n  let b: Int = 1\n\n" ++
        "  associatedtype T: P\n\n  var c: T\n\x7d" ∧
      ∃ e g, (gallery.expand .default).result = .ok e ∧ g ∈ e.declarations ∧ g.members ≠ [] ∧
        g.SeparatesGroups "  " ∧ (groups g.members).card = 2 := by
  obtain ⟨hprints, hseparates⟩ := blank_lines_separate_runs "  "
  have hmembers : unsorted.members ≠ [] := by decide
  have hruns : MaximalRuns unsorted.members
      [unsorted.members.take 2, [.associatedType "T" "P"],
        [.storedProperty .var "c" "T" none]] := by
    refine ⟨rfl, by decide, by decide, ?_⟩
    decide
  refine ⟨hmembers, ?_, ?_⟩
  · rw [(hprints unsorted hmembers).text _ hruns]
    decide
  · obtain ⟨e, he⟩ : ∃ e, (gallery.expand .default).result = .ok e := ⟨_, rfl⟩
    have hall := hseparates .default gallery e he
    cases he
    exact ⟨_, _, rfl, List.mem_cons_self, by decide, hall _ List.mem_cons_self, by decide⟩

end Declaration

end ModelPreview.Generated
