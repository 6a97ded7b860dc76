import BeanSynthesis.Proofs.Carrying.Nearest
import BeanSynthesis.Proofs.Turns
import Mathlib.Data.List.Dedup

/-!
# Walks along superclasses

The scan and the search for a value go from superclass to superclass and stop at a name that they
have seen. Here they take their turns one by one, with no bound on their number. Every turn up uses
one of the names under which the model speaks of superclasses, of which there are finitely many, so
all walks end, in any model. They end with what the scan and the search compute.
-/

namespace BeanSynthesis

namespace CodeModel

variable {m : CodeModel} {c : BeanClass} {name superclass : String}

/-- The names under which the model speaks of superclasses. -/
def superclassNames (m : CodeModel) : List String :=
  m.classes.filterMap (fun c => c.parent.map (·.name)) ++
    m.external.entries.filterMap (·.2.superclass)

private theorem mem_superclassNames_of_parent (hc : c ∈ m.classes)
    (h : c.parent.map (·.name) = some name) :
    name ∈ m.superclassNames :=
  List.mem_append_left _ (List.mem_filterMap.mpr ⟨c, hc, h⟩)

private theorem mem_superclassNames (h : m.superclassName? name = some superclass) :
    superclass ∈ m.superclassNames := by
  unfold superclassName? at h
  split at h
  case h_1 c hc => exact mem_superclassNames_of_parent (mem_of_class? hc) h
  case h_2 =>
    obtain ⟨external, hfound, hsuperclass⟩ := Option.bind_eq_some_iff.mp h
    obtain ⟨entry, hentry, rfl⟩ := Option.map_eq_some_iff.mp hfound
    exact List.mem_append_right _
      (List.mem_filterMap.mpr ⟨entry, List.mem_of_find?_eq_some hentry, hsuperclass⟩)

/-- The names that the generated classes lead to, from superclass to superclass. Where a class is
generated, what is known of it outside does not count. The platform is not entered. -/
inductive Reached (m : CodeModel) : String → Prop where
  | parent {c : BeanClass} {name : String} (hc : c ∈ m.classes)
      (h : c.parent.map (·.name) = some name) (houtside : isPlatformClass name = false) :
      Reached m name
  | superclass {name superclass : String} (hname : Reached m name)
      (h : m.superclassName? name = some superclass)
      (houtside : isPlatformClass superclass = false) : Reached m superclass

private theorem Reached.mem_superclassNames (h : m.Reached name) : name ∈ m.superclassNames := by
  cases h with
  | parent hc h _ => exact mem_superclassNames_of_parent hc h
  | superclass _ h _ => exact CodeModel.mem_superclassNames h

/-- Whether a class of this name is generated, or can be loaded from outside. -/
def isKnown (m : CodeModel) (name : String) : Bool :=
  m.isGenerated name || (m.external.get? name).isSome

end CodeModel

/-- How many of these names have not been visited. -/
def unvisited (names visited : List String) : Nat :=
  (names.dedup.filter (· ∉ visited)).length

private theorem unvisited_nil (names : List String) : unvisited names [] = names.dedup.length := by
  simp [unvisited]

/-- A visit leaves one name less. -/
theorem unvisited_cons_lt {names visited : List String} {name : String} (hname : name ∈ names)
    (hfresh : name ∉ visited) : unvisited names (name :: visited) < unvisited names visited := by
  have hsplit : names.dedup.filter (· ∉ name :: visited) =
      (names.dedup.filter (· ∉ visited)).filter (· ≠ name) := by
    rw [List.filter_filter]
    exact List.filter_congr fun other _ => by simp
  unfold unvisited
  rw [hsplit, List.length_filter_lt_length_iff_exists]
  exact ⟨name, List.mem_filter.mpr ⟨List.mem_dedup.mpr hname, by simpa using hfresh⟩, by simp⟩

namespace Carriers

variable {m : CodeModel} {c : BeanClass} {carriers : Carriers}

/-! ## The turns of the scan -/

/-- Where the scan stands: the classes that it has not come to, the name that its walk is at, and
what it has found. -/
structure ScanState where
  rest : List BeanClass
  next : Option String
  found : Carriers

/-- One turn of the scan. -/
inductive ScanTurn (m : CodeModel) : ScanState → ScanState → Prop where
  /-- The walk from one class is over, and that from the next class begins. -/
  | begin {c : BeanClass} {rest : List BeanClass} {found : Carriers} :
      ScanTurn m ⟨c :: rest, none, found⟩ ⟨rest, c.parent.map (·.name), found⟩
  /-- The walk ends at the platform, or at a name that has been scanned. -/
  | stop {rest : List BeanClass} {name : String} {found : Carriers} (h : found.Covers name) :
      ScanTurn m ⟨rest, some name, found⟩ ⟨rest, none, found⟩
  /-- The name is scanned, and the walk goes on to its superclass. -/
  | climb {rest : List BeanClass} {name : String} {found after : Carriers}
      (h : ¬found.Covers name) (hscan : (scan m found name).outcome = .ok after) :
      ScanTurn m ⟨rest, some name, found⟩ ⟨rest, m.superclassName? name, after⟩

private theorem scanTurn_unique (m : CodeModel) : Relator.RightUnique (ScanTurn m) := by
  intro s t u ht hu
  cases ht with
  | begin => cases hu; rfl
  | stop h =>
    cases hu with
    | stop => rfl
    | climb h' _ => exact absurd h h'
  | climb h hscan =>
    cases hu with
    | stop h' => exact absurd h' h
    | climb _ hscan' =>
      obtain rfl := Except.ok.inj (hscan.symm.trans hscan')
      rfl

namespace ScanState

/-- The scan before its first turn. -/
def start (m : CodeModel) : ScanState := ⟨m.classes, none, {}⟩

/-- What holds all along: the names have been reached, none has been scanned twice, and those that
are not known have been put aside in the order in which they were scanned. -/
structure Sound (m : CodeModel) (s : ScanState) : Prop where
  rest : s.rest ⊆ m.classes
  next : ∀ name ∈ s.next, isPlatformClass name = false → m.Reached name
  scanned : ∀ name ∈ s.found.scanned, m.Reached name
  distinct : s.found.scanned.Nodup
  unresolved : s.found.unresolved = (s.found.scanned.filter (!m.isKnown ·)).reverse

private theorem Sound.start (m : CodeModel) : (start m).Sound m where
  rest := List.Subset.refl _
  next := by simp [ScanState.start]
  scanned := by simp [ScanState.start]
  distinct := List.nodup_nil
  unresolved := rfl

/-- How many turns are left at most: two for every class, one for the name at hand and one for every
name that has not been scanned. -/
def budget (m : CodeModel) (s : ScanState) : Nat :=
  2 * s.rest.length + s.next.toList.length + unvisited m.superclassNames s.found.scanned

end ScanState

private theorem scanned_of_scan {found after : Carriers} {name : String}
    (h : (scan m found name).outcome = .ok after) : after.scanned = name :: found.scanned := by
  obtain ⟨after', hafter, hscanned, -⟩ := scan_finds m found name
  obtain rfl := Except.ok.inj (h.symm.trans hafter)
  exact hscanned

private theorem unresolved_of_scan {found after : Carriers} {name : String}
    (h : (scan m found name).outcome = .ok after) :
    after.unresolved = if m.isKnown name then found.unresolved else found.unresolved ++ [name] := by
  unfold scan at h
  unfold CodeModel.isKnown CodeModel.isGenerated
  dsimp only at h
  split at h
  case h_1 c hc =>
    rw [hc]
    split at h
    · obtain rfl := Except.ok.inj h
      rfl
    · obtain rfl := Except.ok.inj h
      rfl
  case h_2 hc =>
    rw [hc]
    split at h
    case h_1 external hexternal =>
      rw [hexternal]
      split at h
      · obtain rfl := Except.ok.inj h
        rfl
      · obtain rfl := Except.ok.inj h
        rfl
    case h_2 hexternal =>
      rw [hexternal]
      obtain rfl := Except.ok.inj h
      rfl

private theorem ScanTurn.sound (s t : ScanState) (hs : s.Sound m) (h : ScanTurn m s t) :
    t.Sound m ∧ t.budget m < s.budget m := by
  obtain ⟨hrest, hnext, hscanned, hdistinct, hunresolved⟩ := hs
  cases h with
  | @begin c rest found =>
    obtain ⟨hc, hrest⟩ := List.cons_subset.mp hrest
    refine ⟨⟨hrest, fun name hname => .parent hc hname, hscanned, hdistinct, hunresolved⟩, ?_⟩
    have hone := Option.length_toList_le (o := c.parent.map (·.name))
    simp only [ScanState.budget, List.length_cons, Option.toList_none, List.length_nil]
    omega
  | stop _ =>
    refine ⟨⟨hrest, by simp, hscanned, hdistinct, hunresolved⟩, ?_⟩
    simp [ScanState.budget]
  | @climb rest name found after hcovers hscan =>
    obtain ⟨houtside, hfresh⟩ := not_or.mp hcovers
    have hname : m.Reached name := hnext name rfl (by simpa using houtside)
    have hafter := scanned_of_scan hscan
    refine ⟨⟨hrest, fun superclass hsuperclass => .superclass hname hsuperclass, ?_, ?_, ?_⟩, ?_⟩
    · rw [hafter]
      exact List.forall_mem_cons.mpr ⟨hname, hscanned⟩
    · rw [hafter]
      exact List.nodup_cons.mpr ⟨hfresh, hdistinct⟩
    · rw [unresolved_of_scan hscan, hafter, hunresolved]
      cases hknown : m.isKnown name with
      | true => simp [hknown]
      | false => simp [hknown]
    · have hless := unvisited_cons_lt hname.mem_superclassNames hfresh
      have hone := Option.length_toList_le (o := m.superclassName? name)
      simp only [ScanState.budget, hafter, Option.toList_some, List.length_singleton]
      omega

private theorem sound_of_run {s : ScanState} (h : Relation.ReflTransGen (ScanTurn m) (.start m) s) :
    s.Sound m :=
  keeps_of_run (fun s t hs hturn => (ScanTurn.sound s t hs hturn).1) h (.start m)

/-! ## The result of the scan -/

/-- The walk takes its turns through the computed chain, as far as nothing in it has been scanned
before. Names of the chain that are in `visited` have been scanned in the walk itself. -/
theorem walk_run {steps : Nat} {visited before : List String} {found : Carriers}
    (h : m.Visiting steps visited) (hscanned : found.scanned = visited ++ before)
    (rest : List BeanClass) (next : Option String) :
    ∃ after, (((m.chainFrom steps visited next).takeWhile fun name =>
        !isPlatformClass name && name ∉ before).foldlM (scan m) found).outcome = .ok after ∧
      Relation.ReflTransGen (ScanTurn m) ⟨rest, next, found⟩ ⟨rest, none, after⟩ := by
  induction steps generalizing visited found next with
  | zero => exact absurd h.steps_pos (by omega)
  | succ steps ih =>
    cases next with
    | none => exact ⟨found, by rw [CodeModel.chainFrom_none]; rfl, .refl⟩
    | some name =>
      by_cases hvisited : name ∈ visited
      · refine ⟨found, by rw [CodeModel.chainFrom_of_visited m _ hvisited]; rfl, .single (.stop ?_)⟩
        exact .inr (by rw [hscanned]; exact List.mem_append_left _ hvisited)
      rw [CodeModel.chainFrom_of_fresh m steps hvisited]
      by_cases hstop : isPlatformClass name ∨ name ∈ before
      · have hrefused : ¬(!isPlatformClass name && name ∉ before) = true := by
          rcases hstop with h | h
          · simp [h]
          · simp [h]
        refine ⟨found, by rw [List.takeWhile_cons, if_neg hrefused]; rfl, ?_⟩
        refine .single (.stop (hstop.imp_right fun hmem => ?_))
        rw [hscanned]
        exact List.mem_append_right _ hmem
      have hcovers : ¬found.Covers name := by
        rintro (hplatform | hmem)
        · exact hstop (.inl hplatform)
        · rw [hscanned, List.mem_append] at hmem
          exact hmem.elim hvisited fun hbefore => hstop (.inr hbefore)
      obtain ⟨first, hfirst, hfirstScanned, -⟩ := scan_finds m found name
      have hturn : ScanTurn m ⟨rest, some name, found⟩ ⟨rest, m.superclassName? name, first⟩ :=
        .climb hcovers hfirst
      have haccepted : (!isPlatformClass name && name ∉ before) = true := by
        obtain ⟨houtside, hbefore⟩ := not_or.mp hstop
        simp [houtside, hbefore]
      rw [List.takeWhile_cons, if_pos haccepted]
      simp only [List.foldlM_cons, Step.outcome_bind, hfirst]
      cases hsuperclass : m.superclassName? name with
      | none =>
        rw [hsuperclass] at hturn
        exact ⟨first, by rw [CodeModel.chainFrom_none]; rfl, .single hturn⟩
      | some superclass =>
        rw [hsuperclass] at hturn
        have hscanned' : first.scanned = name :: visited ++ before := by
          rw [hfirstScanned, hscanned]
          rfl
        obtain ⟨after, hafter, hrun⟩ :=
          ih (h.next hvisited (CodeModel.mem_knownNames hsuperclass)) hscanned' (some superclass)
        exact ⟨after, hafter, .head hturn hrun⟩

/-- The scan takes its turns from class to class. -/
theorem scanClasses_run (classes : List BeanClass) (found : Carriers) :
    ∃ after, (classes.foldlM (scanAncestors m) found).outcome = .ok after ∧
      Relation.ReflTransGen (ScanTurn m) ⟨classes, none, found⟩ ⟨[], none, after⟩ := by
  induction classes generalizing found with
  | nil => exact ⟨found, rfl, .refl⟩
  | cons c rest ih =>
    obtain ⟨first, hfirst, hwalk⟩ :=
      walk_run (.start m) (List.nil_append found.scanned).symm rest (c.parent.map (·.name))
    obtain ⟨after, hafter, hrun⟩ := ih first
    refine ⟨after, ?_, .head .begin (hwalk.trans hrun)⟩
    have hscan : (scanAncestors m found c).outcome = .ok first := hfirst
    rw [List.foldlM_cons, Step.outcome_bind, hscan]
    exact hafter

private theorem atRest_scanned (m : CodeModel) (found : Carriers) :
    AtRest (ScanTurn m) ⟨[], none, found⟩ := nofun

/-- A scan that has come to rest has found what is computed, but for the core component types. -/
theorem ofModel_of_run {s : ScanState} (h : Relation.ReflTransGen (ScanTurn m) (.start m) s)
    (hrest : AtRest (ScanTurn m) s) :
    (m.classes.foldlM (scanAncestors m) {}).outcome = .ok s.found ∧
      (ofModel m).outcome = .ok { s.found with types := withCoreComponents s.found.types } := by
  obtain ⟨after, hafter, hrun⟩ := scanClasses_run (m := m) m.classes {}
  obtain rfl := eq_of_atRest (scanTurn_unique m) h hrest hrun (atRest_scanned m after)
  refine ⟨hafter, ?_⟩
  unfold ofModel
  rw [Step.outcome_bind, hafter]
  rfl

/-! ## The names that are scanned -/

/-- A scan that has come to rest has scanned what can be reached. -/
theorem mem_scanned_iff {s : ScanState} (h : Relation.ReflTransGen (ScanTurn m) (.start m) s)
    (hrest : AtRest (ScanTurn m) s) (name : String) :
    name ∈ s.found.scanned ↔ m.Reached name := by
  refine ⟨(sound_of_run h).scanned name, fun hreached => ?_⟩
  obtain ⟨after, hafter, hclosed, -, hparents⟩ := scanClasses_closed (.empty m) m.classes
  obtain rfl := Except.ok.inj ((ofModel_of_run h hrest).1.symm.trans hafter)
  have hscanned : ∀ name, isPlatformClass name = false → s.found.Covers name →
      name ∈ s.found.scanned :=
    fun name houtside hcovers => hcovers.resolve_left (by simp [houtside])
  induction hreached with
  | parent hc hparent houtside => exact hscanned _ houtside (hparents _ hc _ hparent)
  | superclass _ hsuperclass houtside ih =>
    exact hscanned _ houtside (hclosed.superclasses _ ih _ hsuperclass)

/-- What the scan has found is what the names that can be reached declare, and the core component
types that they do not; left out are those of the names that are not known. -/
structure IsClosure (m : CodeModel) (found : Carriers) : Prop where
  entries : ∀ name type, found.types.get? name = some type ↔
    (m.Reached name ∧ m.fieldValue? name = some type) ∨
      ((∀ other, ¬(m.Reached name ∧ m.fieldValue? name = some other)) ∧
        coreComponentValue? name = some type)
  distinct : (skipped found).Nodup
  unknown : ∀ reason, reason ∈ skipped found ↔
    ∃ name, m.Reached name ∧ m.isKnown name = false ∧ reason = .resolveFailed name

private theorem ofModel_isClosure (m : CodeModel) :
    ∃ found, (ofModel m).outcome = .ok found ∧ found.IsClosure m := by
  obtain ⟨after, hscan, hrun⟩ := scanClasses_run (m := m) m.classes {}
  have hrest := atRest_scanned m after
  obtain ⟨after', hafter', hclosed, -, -⟩ := scanClasses_closed (.empty m) m.classes
  obtain rfl := Except.ok.inj (hscan.symm.trans hafter')
  have hscanned : ∀ name, name ∈ after.scanned ↔ m.Reached name := mem_scanned_iff hrun hrest
  obtain ⟨-, -, -, hdistinct, hunresolved⟩ := sound_of_run hrun
  have hskipped : skipped { after with types := withCoreComponents after.types } =
      (after.scanned.filter (!m.isKnown ·)).reverse.map .resolveFailed := by
    rw [skipped, hunresolved]
  refine ⟨_, (ofModel_of_run hrun hrest).2, ?_, ?_, ?_⟩
  · intro name type
    rw [get?_withCoreComponents, hclosed.exact]
    by_cases hreached : m.Reached name
    · rw [if_pos ((hscanned name).mpr hreached)]
      cases m.fieldValue? name with
      | none => simp [hreached]
      | some other => simp [hreached]
    · rw [if_neg fun hmem => hreached ((hscanned name).mp hmem)]
      simp [hreached]
  · rw [hskipped]
    refine List.Nodup.map (fun _ _ h => SkipReason.resolveFailed.inj h) ?_
    exact List.nodup_reverse.mpr (hdistinct.filter _)
  · intro reason
    simp only [hskipped, List.mem_map, List.mem_reverse, List.mem_filter, hscanned]
    constructor
    · rintro ⟨name, ⟨hreached, hunknown⟩, rfl⟩
      exact ⟨name, hreached, by simpa using hunknown, rfl⟩
    · rintro ⟨name, hreached, hunknown, rfl⟩
      exact ⟨name, ⟨hreached, by simp [hunknown]⟩, rfl⟩

/-! ## Other orders -/

/-- The same names are reached where the same classes are found. -/
theorem reached_of_sameClasses {n : CodeModel} (hmem : ∀ c, c ∈ m.classes → c ∈ n.classes)
    (hclass : ∀ name, n.class? name = m.class? name) (hexternal : n.external = m.external)
    {name : String} (h : m.Reached name) : n.Reached name := by
  induction h with
  | parent hc hparent houtside => exact .parent (hmem _ hc) hparent houtside
  | @superclass name superclass _ hsuperclass houtside ih =>
    refine .superclass ih ?_ houtside
    rw [CodeModel.superclassName?, hclass, hexternal]
    exact hsuperclass

/-- Two closures over the same classes are the same, but for the order of what was left out. -/
theorem IsClosure.unique {n : CodeModel} {found foundIn : Carriers} (h : found.IsClosure m)
    (h' : foundIn.IsClosure n) (hreached : ∀ name, n.Reached name ↔ m.Reached name)
    (hclass : ∀ name, n.class? name = m.class? name) (hexternal : n.external = m.external) :
    foundIn.types = found.types ∧ (skipped foundIn).Perm (skipped found) := by
  have hvalue : ∀ name, n.fieldValue? name = m.fieldValue? name := fun name => by
    rw [CodeModel.fieldValue?, hclass, hexternal, CodeModel.fieldValue?]
  have hknown : ∀ name, n.isKnown name = m.isKnown name := fun name => by
    rw [CodeModel.isKnown, CodeModel.isGenerated, hclass, hexternal, CodeModel.isKnown,
      CodeModel.isGenerated]
  constructor
  · ext name type
    rw [h.entries, h'.entries, hreached, hvalue]
  · refine (List.perm_ext_iff_of_nodup h'.distinct h.distinct).mpr fun reason => ?_
    simp only [h.unknown, h'.unknown, hreached, hknown]

/-- The scan computes the closure of the superclasses of all classes, and finds the same in every
order of the classes. -/
theorem ofModel_closure (hnames : (m.classes.map (·.name)).Nodup) :
    ∃ found, (ofModel m).outcome = .ok found ∧ found.IsClosure m ∧
      ∀ classes : List BeanClass, classes.Perm m.classes →
        ∃ foundIn, (ofModel { m with classes }).outcome = .ok foundIn ∧
          foundIn.types = found.types ∧ (skipped foundIn).Perm (skipped found) := by
  obtain ⟨found, hfound, hclosure⟩ := ofModel_isClosure m
  refine ⟨found, hfound, hclosure, fun classes hperm => ?_⟩
  obtain ⟨foundIn, hfoundIn, hclosureIn⟩ := ofModel_isClosure { m with classes }
  have hclass := CodeModel.class?_perm hnames hperm
  refine ⟨foundIn, hfoundIn, hclosure.unique hclosureIn (fun name => ⟨?_, ?_⟩) hclass rfl⟩
  · exact reached_of_sameClasses (fun _ => hperm.mem_iff.mp) (fun name => (hclass name).symm) rfl
  · exact reached_of_sameClasses (fun _ => hperm.mem_iff.mpr) hclass rfl

/-- A rental is a lease, and a lease, which is from outside, is a rental again. Nothing is known of
what a deposit is. -/
def rentals : CodeModel where
  classes := [
    { name := "shop.Rental", parent := some (.ofName "ext.Lease") },
    { name := "shop.Deposit", parent := some (.ofName "ext.Pledge") }]
  external := .ofList [
    ("ext.Lease", {
      name := "ext.Lease"
      superclass := some "shop.Rental"
      fields := .ofList [("value", .ofName "java.math.BigDecimal")] })]

/-- The closure of rentals has the value of a lease, and pledges are left out. -/
theorem rentals_closure : (rentals.classes.map (·.name)).Nodup ∧
    ∃ found, (ofModel rentals).outcome = .ok found ∧
      found.types.get? "ext.Lease" = some (.ofName "java.math.BigDecimal") ∧
      .resolveFailed "ext.Pledge" ∈ skipped found := by
  have hnames : (rentals.classes.map (·.name)).Nodup := by decide
  obtain ⟨found, hfound, hclosure, -⟩ := ofModel_closure hnames
  have hlease : rentals.Reached "ext.Lease" :=
    .parent List.mem_cons_self rfl (by decide)
  have hpledge : rentals.Reached "ext.Pledge" :=
    .parent (List.mem_cons_of_mem _ List.mem_cons_self) rfl (by decide)
  refine ⟨hnames, found, hfound, ?_, ?_⟩
  · exact (hclosure.entries _ _).mpr (.inl ⟨hlease, by decide⟩)
  · exact (hclosure.unknown _).mpr ⟨"ext.Pledge", hpledge, by decide, rfl⟩

/-! ## The turns of the search -/

/-- Where the search for a value stands. -/
inductive SearchState where
  /-- It has visited these names and is at the next one. -/
  | going (visited : List String) (next : Option String)
  /-- It has visited these names and has its answer. -/
  | ended (visited : List String) (answer : Option TypeExpr)

/-- The names that the search has visited. -/
def SearchState.visited : SearchState → List String
  | going visited _ => visited
  | ended visited _ => visited

/-- One turn of the search. -/
inductive SearchTurn (m : CodeModel) (carriers : Carriers) : SearchState → SearchState → Prop where
  /-- There is no superclass any more. -/
  | top {visited : List String} :
      SearchTurn m carriers (.going visited none) (.ended visited none)
  /-- The walk is back at a name that it has visited. -/
  | again {visited : List String} {name : String} (h : name ∈ visited) :
      SearchTurn m carriers (.going visited (some name)) (.ended visited none)
  /-- A value is known under the name. -/
  | answer {visited : List String} {name : String} {type : TypeExpr} (hfresh : name ∉ visited)
      (h : carriers.types.get? name = some type) :
      SearchTurn m carriers (.going visited (some name)) (.ended (name :: visited) (some type))
  /-- The walk goes on to the superclass. -/
  | climb {visited : List String} {name : String} (hfresh : name ∉ visited)
      (h : carriers.types.get? name = none) :
      SearchTurn m carriers (.going visited (some name))
        (.going (name :: visited) (m.superclassName? name))

private theorem searchTurn_unique (m : CodeModel) (carriers : Carriers) :
    Relator.RightUnique (SearchTurn m carriers) := by
  intro s t u ht hu
  cases ht with
  | top => cases hu; rfl
  | again h =>
    cases hu with
    | again => rfl
    | answer hfresh _ => exact absurd h hfresh
    | climb hfresh _ => exact absurd h hfresh
  | answer hfresh h =>
    cases hu with
    | again h' => exact absurd h' hfresh
    | answer _ h' =>
      obtain rfl := Option.some.inj (h.symm.trans h')
      rfl
    | climb _ h' => simp [h] at h'
  | climb hfresh h =>
    cases hu with
    | again h' => exact absurd h' hfresh
    | answer _ h' => simp [h] at h'
    | climb => rfl

namespace SearchState

/-- The search from a class before its first turn. -/
def start (c : BeanClass) : SearchState := .going [] (c.parent.map (·.name))

/-- The names that a search from the class can come to. -/
def names (m : CodeModel) (c : BeanClass) : List String :=
  (c.parent.map (·.name)).toList ++ m.superclassNames

/-- What holds all along: the next name is one of a superclass, and none has been visited twice. -/
structure Sound (m : CodeModel) (c : BeanClass) (s : SearchState) : Prop where
  next : ∀ visited name, s = .going visited (some name) → name ∈ names m c
  distinct : s.visited.Nodup

private theorem Sound.start (m : CodeModel) (c : BeanClass) : (start c).Sound m c where
  next visited name h := by
    obtain ⟨-, hparent⟩ := SearchState.going.inj h
    simp [names, hparent]
  distinct := List.nodup_nil

/-- How many turns are left at most: one for every name that has not been visited, and one to
end. -/
def budget (m : CodeModel) (c : BeanClass) : SearchState → Nat
  | going visited _ => unvisited (names m c) visited + 1
  | ended _ _ => 0

end SearchState

/-- A turn of the search for a value keeps what is known of it and uses up a part of its budget. -/
theorem SearchTurn.sound (carriers : Carriers) (c : BeanClass) (s t : SearchState)
    (hs : s.Sound m c) (h : SearchTurn m carriers s t) :
    t.Sound m c ∧ t.budget m c < s.budget m c := by
  obtain ⟨hnext, hdistinct⟩ := hs
  cases h with
  | top => exact ⟨⟨nofun, hdistinct⟩, Nat.succ_pos _⟩
  | again _ => exact ⟨⟨nofun, hdistinct⟩, Nat.succ_pos _⟩
  | answer hfresh _ => exact ⟨⟨nofun, List.nodup_cons.mpr ⟨hfresh, hdistinct⟩⟩, Nat.succ_pos _⟩
  | climb hfresh _ =>
    refine ⟨⟨fun visited superclass heq => ?_, List.nodup_cons.mpr ⟨hfresh, hdistinct⟩⟩, ?_⟩
    · obtain ⟨-, hsuperclass⟩ := SearchState.going.inj heq
      exact List.mem_append_right _ (CodeModel.mem_superclassNames hsuperclass)
    · exact Nat.succ_lt_succ (unvisited_cons_lt (hnext _ _ rfl) hfresh)

/-- The search takes its turns through the computed chain. -/
theorem search_run {steps : Nat} {visited : List String} (h : m.Visiting steps visited)
    (carriers : Carriers) (next : Option String) :
    ∃ visited', Relation.ReflTransGen (SearchTurn m carriers) (.going visited next)
      (.ended visited' ((m.chainFrom steps visited next).findSome? carriers.types.get?)) := by
  induction steps generalizing visited next with
  | zero => exact absurd h.steps_pos (by omega)
  | succ steps ih =>
    cases next with
    | none => exact ⟨visited, .single .top⟩
    | some name =>
      by_cases hvisited : name ∈ visited
      · rw [CodeModel.chainFrom_of_visited m _ hvisited]
        exact ⟨visited, .single (.again hvisited)⟩
      rw [CodeModel.chainFrom_of_fresh m steps hvisited, List.findSome?_cons]
      cases hfound : carriers.types.get? name with
      | some type => exact ⟨name :: visited, .single (.answer hvisited hfound)⟩
      | none =>
        have hturn : SearchTurn m carriers (.going visited (some name)) _ := .climb hvisited hfound
        cases hsuperclass : m.superclassName? name with
        | none =>
          rw [hsuperclass] at hturn
          rw [CodeModel.chainFrom_none]
          exact ⟨name :: visited, .head hturn (.single .top)⟩
        | some superclass =>
          rw [hsuperclass] at hturn
          obtain ⟨visited', hrun⟩ :=
            ih (h.next hvisited (CodeModel.mem_knownNames hsuperclass)) (some superclass)
          exact ⟨visited', .head hturn hrun⟩

/-- A search that has come to rest has the answer that is computed. -/
theorem valueType?_of_run {s : SearchState}
    (h : Relation.ReflTransGen (SearchTurn m carriers) (.start c) s)
    (hrest : AtRest (SearchTurn m carriers) s) :
    ∃ visited answer, s = .ended visited answer ∧
      valueType? m carriers c = ((c.field? valueField).map (·.type)).or answer := by
  obtain ⟨visited, hrun⟩ := search_run (.start m) carriers (c.parent.map (·.name))
  have hended : ∀ answer, AtRest (SearchTurn m carriers) (.ended visited answer) := fun _ => nofun
  obtain rfl := eq_of_atRest (searchTurn_unique m carriers) h hrest hrun (hended _)
  refine ⟨visited, _, rfl, ?_⟩
  unfold valueType? CodeModel.ancestorNames
  cases c.field? valueField <;> rfl

/-! ## All walks -/

/-- In every model the scan and every search end. The scan has no more turns than two for each class
and one for each name of a superclass, and scans no name twice, in one walk or in several. A search
has no more turns than there are names above its class and one, and visits no name twice. What they
have found at the end is what is computed. -/
theorem walks_end (m : CodeModel) :
    EndsWithinTurns (ScanTurn m) (2 * m.classes.length + m.superclassNames.dedup.length)
      (.start m) ∧
    (∀ s, Relation.ReflTransGen (ScanTurn m) (.start m) s →
      s.found.scanned.Nodup ∧ (∀ name ∈ s.found.scanned, m.Reached name) ∧
      (AtRest (ScanTurn m) s → (ofModel m).outcome =
        .ok { s.found with types := withCoreComponents s.found.types })) ∧
    ∀ carriers c,
      EndsWithinTurns (SearchTurn m carriers) ((SearchState.names m c).dedup.length + 1)
        (.start c) ∧
      ∀ s, Relation.ReflTransGen (SearchTurn m carriers) (.start c) s →
        s.visited.Nodup ∧
        (AtRest (SearchTurn m carriers) s → ∃ visited answer, s = .ended visited answer ∧
          valueType? m carriers c = ((c.field? valueField).map (·.type)).or answer) := by
  refine ⟨?_, fun s hrun => ?_, fun carriers c => ⟨?_, fun s hrun => ?_⟩⟩
  · have hends := endsWithinTurns_of_budget ScanTurn.sound (ScanState.Sound.start m)
    simpa [ScanState.budget, ScanState.start, unvisited_nil] using hends
  · have hsound := sound_of_run hrun
    exact ⟨hsound.distinct, hsound.scanned, fun hrest => (ofModel_of_run hrun hrest).2⟩
  · have hends := endsWithinTurns_of_budget (SearchTurn.sound carriers c)
      (SearchState.Sound.start m c)
    simpa [SearchState.budget, SearchState.start, unvisited_nil] using hends
  · have hsound : s.Sound m c :=
      keeps_of_run (fun s t hs hturn => (SearchTurn.sound carriers c s t hs hturn).1) hrun
        (.start m c)
    exact ⟨hsound.distinct, valueType?_of_run hrun⟩

end Carriers

end BeanSynthesis
