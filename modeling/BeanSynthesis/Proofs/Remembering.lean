import Mathlib.Data.Finset.Card
import BeanSynthesis.Proofs.Growth.Runs

/-!
# What a classifier is asked

A classifier answers a question about a model as one would that has not been asked anything before,
as long as all the models share their table of external classes: what it remembers is that table,
restricted to the names it was asked for. To learn that a class is an enumeration it reads the
table once for a name. To learn that a class is a number it reads the table each time.
-/

namespace BeanSynthesis

/-- Whether the table says that a class is an enumeration; one that is not in it is none. -/
def ExternalTypes.isEnum (table : ExternalTypes) (name : String) : Bool :=
  match table.get? name with
  | some c => c.isEnum
  | none => false

/-- Whether the table says that a class is a number; one that is not in it is none. -/
def ExternalTypes.isNumber (table : ExternalTypes) (name : String) : Bool :=
  match table.get? name with
  | some c => c.isNumber
  | none => false

namespace CodeModel

private theorem isExternalEnum_eq (m : CodeModel) : m.isExternalEnum = m.external.isEnum := rfl

/-- The category of a type hangs on no other external class than the one that is asked about. -/
theorem categoryWith_congr (m : CodeModel) {f g : String → Bool} (t : TypeExpr)
    (h : ∀ name, m.externalAsked? t = some name → f name = g name) :
    m.categoryWith f t = m.categoryWith g t := by
  fun_induction CodeModel.categoryWith m f t with
  | _ => simp_all [categoryWith, externalAsked?]

variable (m : CodeModel) (table : ExternalTypes)

private theorem classVerdict_withExternal (name : String) (args : List TypeExpr) :
    { m with external := table }.classVerdict name args = m.classVerdict name args := rfl

/-- The table of external classes has no part in a category but by the answer. -/
theorem categoryWith_withExternal (f : String → Bool) (t : TypeExpr) :
    { m with external := table }.categoryWith f t = m.categoryWith f t := by
  fun_induction CodeModel.categoryWith m f t with
  | _ => simp_all [categoryWith, classVerdict_withExternal]

private theorem externalAsked?_withExternal (t : TypeExpr) :
    { m with external := table }.externalAsked? t = m.externalAsked? t := by
  fun_induction CodeModel.externalAsked? m t with
  | _ => simp_all [externalAsked?, classVerdict_withExternal]

end CodeModel

/-- The class whose record tells whether bounds on numbers apply to values of a type, if its name
does not tell. -/
def TypeExpr.numberAsked? (t : TypeExpr) : Option String :=
  match t.upperBound with
  | .named name _ =>
    if String.ofList ((simpleName name).toList.map Char.toLower) ∈ numericNames ∨
      name ∈ platformNumbers then none else some name
  | _ => none

namespace CodeModel

variable {m : CodeModel} {table : ExternalTypes} {t : TypeExpr}

private theorem isNumeric_of_numberAsked? {name : String} (h : t.numberAsked? = some name) :
    m.isNumeric t = m.external.isNumber name := by
  unfold TypeExpr.numberAsked? at h
  unfold isNumeric
  split at h
  case h_1 args hbound =>
    obtain ⟨⟨hsimple, hplatform⟩, rfl⟩ : _ ∧ _ := by simpa using h
    rw [hbound]
    simp only [hsimple, hplatform, decide_false, Bool.false_or]
    rfl
  · cases h

/-- Whether a type is numeric hangs on no external class if its name tells. -/
theorem isNumeric_withExternal (h : t.numberAsked? = none) :
    { m with external := table }.isNumeric t = m.isNumeric t := by
  unfold TypeExpr.numberAsked? at h
  unfold isNumeric
  split at h
  case h_1 name args hbound =>
    rw [hbound]
    split_ifs at h with hbyName
    rcases hbyName with hsimple | hplatform
    · simp [hsimple]
    · simp [hplatform]
  · grind

end CodeModel

/-- A question to a classifier. -/
inductive Question where
  | category (t : TypeExpr)
  | enumeration (name : String)
  | numeric (t : TypeExpr)

/-- The answer to a question. -/
inductive Answer where
  | category (category : TypeCategory)
  | truth (holds : Bool)
deriving DecidableEq

/-- A question about a model. -/
structure Inquiry where
  model : CodeModel
  question : Question

namespace Inquiry

/-- The class that an inquiry wants to know to be an enumeration or not. -/
def enumeration? (q : Inquiry) : Option String :=
  match q.question with
  | .category t => q.model.externalAsked? t
  | .enumeration name => some name
  | .numeric _ => none

/-- The class that an inquiry wants to know to be a number or not. -/
def number? (q : Inquiry) : Option String :=
  match q.question with
  | .numeric t => t.numberAsked?
  | _ => none

/-- The answer, where `isEnum` says which external classes are enumerations. -/
def answerWith (q : Inquiry) (isEnum : String → Bool) : Answer :=
  match q.question with
  | .category t => .category (q.model.categoryWith isEnum t)
  | .enumeration name => .truth (isEnum name)
  | .numeric t => .truth (q.model.isNumeric t)

/-- The same inquiry with another table of external classes. -/
def withTable (q : Inquiry) (table : ExternalTypes) : Inquiry :=
  { q with model := { q.model with external := table } }

@[simp] private theorem withTable_external (q : Inquiry) (table : ExternalTypes) :
    (q.withTable table).model.external = table := rfl

private theorem answerWith_congr (q : Inquiry) {f g : String → Bool}
    (h : ∀ name, q.enumeration? = some name → f name = g name) :
    q.answerWith f = q.answerWith g := by
  obtain ⟨m, t | name | t⟩ := q
  · exact congrArg Answer.category (m.categoryWith_congr t h)
  · exact congrArg Answer.truth (h name rfl)
  · rfl

end Inquiry

/-- What a list of inquiries gets: the answers, the names under which the table of external classes
was read for them, and the classifier afterwards. -/
structure Replies where
  answers : List Answer
  reads : List String
  classifier : Classifier

namespace Classifier

/-- The answer to an inquiry, and what is remembered afterwards. -/
def reply (k : Classifier) (q : Inquiry) : Answer × Classifier :=
  match q.question with
  | .category t => (k.classify q.model t).map .category id
  | .enumeration name => (k.isExternalEnum q.model name).map .truth id
  | .numeric t => (.truth (q.model.isNumeric t), k)

end Classifier

/-- The answer of a classifier that has not been asked anything before. -/
def Inquiry.alone (q : Inquiry) : Answer := (({} : Classifier).reply q).1

namespace Classifier

/-- The names under which the table is read for an inquiry. -/
def reads (k : Classifier) (q : Inquiry) : List String :=
  q.enumeration?.toList.filter (fun name => (k.answers.get? name).isNone) ++ q.number?.toList

/-- Replies to one inquiry after the other. -/
def replies (k : Classifier) : List Inquiry → Replies
  | [] => ⟨[], [], k⟩
  | q :: rest =>
    let (answer, after) := k.reply q
    let others := after.replies rest
    ⟨answer :: others.answers, k.reads q ++ others.reads, others.classifier⟩

private theorem reply_fst (k : Classifier) (q : Inquiry) :
    (k.reply q).1 = q.answerWith (k.answer q.model) := by
  obtain ⟨m, t | name | t⟩ := q <;> rfl

private theorem reply_snd (k : Classifier) (q : Inquiry) :
    (k.reply q).2 = match q.enumeration? with
      | some name => k.remember q.model name
      | none => k := by
  obtain ⟨m, t | name | t⟩ := q <;> rfl

private theorem get?_remember (k : Classifier) (m : CodeModel) (name other : String) :
    (k.remember m name).answers.get? other =
      if other = name then some (k.answer m name) else k.answers.get? other := by
  unfold remember answer
  cases hknown : k.answers.get? name with
  | some known => split_ifs with heq <;> simp [*]
  | none => exact Dict.get?_insert ..

private theorem eq_of_get? {k l : Classifier}
    (h : ∀ name, k.answers.get? name = l.answers.get? name) : k = l := by
  cases k
  cases l
  exact congrArg Classifier.mk (Dict.ext h)

private theorem enumeration?_withTable (q : Inquiry) (table : ExternalTypes) :
    (q.withTable table).enumeration? = q.enumeration? := by
  obtain ⟨m, t | name | t⟩ := q
  · exact m.externalAsked?_withExternal table t
  · rfl
  · rfl

/-- What the table says of names that are not read has no part in a reply. -/
theorem reply_withTable (k : Classifier) (q : Inquiry) {table : ExternalTypes}
    (h : ∀ name ∈ k.reads q, table.get? name = q.model.external.get? name) :
    k.reply (q.withTable table) = k.reply q := by
  have hanswer : ∀ name, q.enumeration? = some name →
      k.answer (q.withTable table).model name = k.answer q.model name := by
    intro name hname
    unfold answer
    cases hknown : k.answers.get? name with
    | some known => rfl
    | none =>
      have hread : name ∈ k.reads q := by simp [reads, hname, hknown]
      simp only [CodeModel.isExternalEnum, Inquiry.withTable, h name hread]
  have hnumeric : ∀ t, q.question = .numeric t →
      (q.withTable table).model.isNumeric t = q.model.isNumeric t := by
    intro t ht
    cases hname : t.numberAsked? with
    | none => exact CodeModel.isNumeric_withExternal hname
    | some name =>
      have hread : name ∈ k.reads q := by simp [reads, Inquiry.number?, ht, hname]
      rw [CodeModel.isNumeric_of_numberAsked? hname, CodeModel.isNumeric_of_numberAsked? hname]
      simp only [ExternalTypes.isNumber, Inquiry.withTable, h name hread]
  refine Prod.ext ?_ ?_
  · rw [reply_fst, reply_fst, ← q.answerWith_congr hanswer]
    obtain ⟨m, t | name | t⟩ := q
    · exact congrArg Answer.category (m.categoryWith_withExternal table _ t)
    · rfl
    · exact congrArg Answer.truth (hnumeric t rfl)
  · rw [reply_snd, reply_snd, enumeration?_withTable]
    cases hname : q.enumeration? with
    | none => rfl
    | some name =>
      refine eq_of_get? fun other => ?_
      simp only [get?_remember, hanswer name hname]

/-- The table is read for an inquiry exactly under the names on which its reply hangs: what it says
under one of them can change the answer or what is remembered, and nothing else in it can. -/
theorem mem_reads_iff (k : Classifier) (q : Inquiry) (name : String) :
    name ∈ k.reads q ↔ ∃ table : ExternalTypes,
      (∀ other, other ≠ name → table.get? other = q.model.external.get? other) ∧
        k.reply (q.withTable table) ≠ k.reply q := by
  constructor
  · intro hread
    -- the table that says the opposite of the class
    let opposite : ExternalClass :=
      { name
        isEnum := !q.model.external.isEnum name
        isNumber := !q.model.external.isNumber name }
    let table : ExternalTypes := q.model.external.insert name opposite
    have hget : table.get? name = some opposite := by
      simp only [table, Dict.get?_insert, if_true]
    have henum : table.isEnum name = !q.model.external.isEnum name := by
      simp only [ExternalTypes.isEnum, hget, opposite]
    have hnumber : table.isNumber name = !q.model.external.isNumber name := by
      simp only [ExternalTypes.isNumber, hget, opposite]
    refine ⟨table, fun other hother => ?_, fun heq => ?_⟩
    · simp only [table, Dict.get?_insert, if_neg hother]
    · rcases List.mem_append.mp hread with hread | hread
      · obtain ⟨hasked, hunknown⟩ : q.enumeration? = some name ∧ k.answers.get? name = none := by
          simpa using hread
        have hsame := congrArg (fun reply => reply.2.answers.get? name) heq
        simp [reply_snd, enumeration?_withTable, hasked, get?_remember, answer, hunknown,
          CodeModel.isExternalEnum_eq, henum] at hsame
      · obtain ⟨m, t | other | t⟩ := q
        · cases hread
        · cases hread
        · have hasked : t.numberAsked? = some name := by simpa [Inquiry.number?] using hread
          have hsame : Answer.truth _ = Answer.truth _ := congrArg Prod.fst heq
          simp [Inquiry.withTable, CodeModel.isNumeric_of_numberAsked? hasked, hnumber] at hsame
  · rintro ⟨table, hothers, hreply⟩
    by_contra hread
    exact hreply (k.reply_withTable q fun other hother =>
      hothers other fun heq => hread (heq ▸ hother))

/-- The classifier remembers what the table says of the names it was asked for, and no more. -/
def Remembers (k : Classifier) (table : ExternalTypes) (asked : List String) : Prop :=
  ∀ name, k.answers.get? name = if name ∈ asked then some (table.isEnum name) else none

namespace Remembers

variable {k : Classifier} {table : ExternalTypes} {asked : List String}

private theorem nothing (table : ExternalTypes) : ({} : Classifier).Remembers table [] :=
  fun _ => rfl

private theorem size_eq (h : k.Remembers table asked) : k.size = asked.toFinset.card := by
  have hnames : k.answers.names.toFinset = asked.toFinset := by
    ext name
    rw [List.mem_toFinset, List.mem_toFinset, Dict.mem_names, h name]
    split <;> simp_all
  rw [← hnames, List.toFinset_card_of_nodup k.answers.nodup_names, Dict.length_names]
  rfl

variable {q : Inquiry}

/-- Its answers are those of the table. -/
theorem answer_eq (h : k.Remembers table asked) (hq : q.model.external = table) :
    k.answer q.model = table.isEnum := by
  funext name
  unfold answer
  rw [h name]
  split_ifs
  · rfl
  · rw [CodeModel.isExternalEnum_eq, hq]

private theorem reads_eq (h : k.Remembers table asked) (q : Inquiry) :
    k.reads q = q.enumeration?.toList.filter (· ∉ asked) ++ q.number?.toList := by
  unfold reads
  congr 2
  funext name
  rw [h name]
  split <;> simp_all

/-- One inquiry more: the classifier answers it as if it were the first, and remembers the name that
the inquiry asks for. -/
theorem reply (h : k.Remembers table asked) (hq : q.model.external = table) :
    (k.reply q).1 = q.alone ∧
      (k.reply q).2.Remembers table (asked ++ q.enumeration?.toList) := by
  refine ⟨?_, fun other => ?_⟩
  · rw [Inquiry.alone, reply_fst, reply_fst, h.answer_eq hq, (nothing table).answer_eq hq]
  · rw [reply_snd]
    cases hasked : q.enumeration? with
    | none => simpa using h other
    | some name =>
      simp only [get?_remember, h.answer_eq hq, h other, Option.toList_some, List.mem_append,
        List.mem_singleton]
      grind

variable {inquiries : List Inquiry}

/-- A list of inquiries more: each is answered as if it were the first. -/
theorem replies (h : k.Remembers table asked)
    (htable : ∀ q ∈ inquiries, q.model.external = table) :
    (k.replies inquiries).answers = inquiries.map Inquiry.alone ∧
      (k.replies inquiries).classifier.Remembers table
        (asked ++ inquiries.filterMap Inquiry.enumeration?) := by
  induction inquiries generalizing k asked with
  | nil => exact ⟨rfl, by rwa [List.filterMap_nil, List.append_nil]⟩
  | cons q rest ih =>
    obtain ⟨hq, hrest⟩ := List.forall_mem_cons.mp htable
    obtain ⟨hanswer, hafter⟩ := h.reply hq
    obtain ⟨hanswers, hclassifier⟩ := ih hafter hrest
    refine ⟨congrArg₂ List.cons hanswer hanswers, ?_⟩
    have hnames : asked ++ (q :: rest).filterMap Inquiry.enumeration? =
        asked ++ q.enumeration?.toList ++ rest.filterMap Inquiry.enumeration? := by
      cases hasked : q.enumeration? <;> simp [hasked]
    exact hnames ▸ hclassifier

/-- How often the table is read under a name: once to learn that the class is an enumeration or not,
unless that is known, and for each inquiry that wants to know it to be a number or not. -/
theorem count_reads (h : k.Remembers table asked)
    (htable : ∀ q ∈ inquiries, q.model.external = table) (name : String) :
    (k.replies inquiries).reads.count name =
      (if name ∉ asked ∧ ∃ q ∈ inquiries, q.enumeration? = some name then 1 else 0) +
        inquiries.countP (·.number? = some name) := by
  induction inquiries generalizing k asked with
  | nil => simp [Classifier.replies]
  | cons q rest ih =>
    obtain ⟨hq, hrest⟩ := List.forall_mem_cons.mp htable
    have hothers := ih (h.reply hq).2 hrest
    have hfirst : (q.enumeration?.toList.filter (· ∉ asked)).count name =
        if name ∉ asked ∧ q.enumeration? = some name then 1 else 0 := by
      cases q.enumeration? with
      | none => simp
      | some other => grind
    have hnumber : q.number?.toList.count name = if q.number? = some name then 1 else 0 := by
      cases q.number? with
      | none => simp
      | some other => grind
    have hsplit : (k.replies (q :: rest)).reads = k.reads q ++ ((k.reply q).2.replies rest).reads :=
      rfl
    rw [hsplit, List.count_append, h.reads_eq, List.count_append, hfirst, hnumber, hothers,
      List.countP_cons]
    simp only [List.mem_append, Option.mem_toList, List.mem_cons, exists_eq_or_imp,
      decide_eq_true_eq]
    grind

end Remembers

/-- The inquiries that the events of a run make. -/
def inquiriesOf (m : CodeModel) (events : List Event) : List Inquiry :=
  events.filterMap fun
    | .askedExternal name => some ⟨m, .enumeration name⟩
    | .logged _ => none

/-- After the events of a run the classifier remembers what it would after their inquiries. -/
theorem observeAll_snd (k : Classifier) (m : CodeModel) (events : List Event) :
    (k.observeAll m events).2 = (k.replies (inquiriesOf m events)).classifier := by
  induction events generalizing k with
  | nil => rfl
  | cons event rest ih =>
    cases event with
    | logged entry => exact ih k
    | askedExternal name => exact ih (k.remember m name)

private theorem replies_append (k : Classifier) (first second : List Inquiry) :
    (k.replies (first ++ second)).classifier =
      ((k.replies first).classifier.replies second).classifier := by
  induction first generalizing k with
  | nil => rfl
  | cons q rest ih => exact ih (k.reply q).2

section

variable {table : ExternalTypes} {inquiries : List Inquiry}

/-- How often the table is read under a name from the first inquiry on. -/
theorem count_reads (htable : ∀ q ∈ inquiries, q.model.external = table) (name : String) :
    (({} : Classifier).replies inquiries).reads.count name =
      (if ∃ q ∈ inquiries, q.enumeration? = some name then 1 else 0) +
        inquiries.countP (·.number? = some name) := by
  simpa using (Remembers.nothing table).count_reads htable name

/-- The classifier counts the names that it was asked for, to know whether they are those of
enumerations. -/
theorem size_replies (htable : ∀ q ∈ inquiries, q.model.external = table) :
    (({} : Classifier).replies inquiries).classifier.size =
      (inquiries.filterMap Inquiry.enumeration?).toFinset.card :=
  ((Remembers.nothing table).replies htable).2.size_eq

private theorem mem_reads_replies_iff (htable : ∀ q ∈ inquiries, q.model.external = table)
    (name : String) :
    name ∈ (({} : Classifier).replies inquiries).reads ↔
      name ∈ inquiries.filterMap Inquiry.enumeration? ∨
        ∃ q ∈ inquiries, q.number? = some name := by
  rw [← List.count_pos_iff, count_reads htable, List.mem_filterMap, Nat.add_pos_iff_pos_or_pos,
    List.countP_pos_iff]
  split <;> simp [*]

/-- Every name is read at most once, and the classifier counts the names that are read, if and only
if no inquiry whether a type is numeric hangs on the table. -/
theorem reads_once_iff (htable : ∀ q ∈ inquiries, q.model.external = table) :
    (({} : Classifier).replies inquiries).reads.Nodup ∧
        (({} : Classifier).replies inquiries).classifier.size =
          (({} : Classifier).replies inquiries).reads.toFinset.card ↔
      ∀ q ∈ inquiries, q.number? = none := by
  rw [size_replies htable, List.nodup_iff_count_le_one]
  set asked := (inquiries.filterMap Inquiry.enumeration?).toFinset with hasked
  set read := (({} : Classifier).replies inquiries).reads.toFinset with hread
  have hmem : ∀ name, name ∈ read ↔ name ∈ asked ∨ ∃ q ∈ inquiries, q.number? = some name := by
    intro name
    rw [hread, hasked, List.mem_toFinset, List.mem_toFinset, mem_reads_replies_iff htable]
  constructor
  · rintro ⟨honce, hcounted⟩ q hq
    by_contra hnumber
    obtain ⟨name, hname⟩ := Option.ne_none_iff_exists'.mp hnumber
    have hsame : asked = read :=
      Finset.eq_of_subset_of_card_le (fun other hother => (hmem other).mpr (.inl hother))
        hcounted.ge
    have henumeration : ∃ r ∈ inquiries, r.enumeration? = some name := by
      have hin : name ∈ asked := hsame ▸ (hmem name).mpr (.inr ⟨q, hq, hname⟩)
      exact List.mem_filterMap.mp (List.mem_toFinset.mp hin)
    have hagain : 0 < inquiries.countP (·.number? = some name) :=
      List.countP_pos_iff.mpr ⟨q, hq, by simpa using hname⟩
    have hcount := honce name
    rw [count_reads htable, if_pos henumeration] at hcount
    omega
  · intro hnone
    have hnever : ∀ name, ¬∃ q ∈ inquiries, q.number? = some name := by
      rintro name ⟨q, hq, hname⟩
      exact Option.some_ne_none name (hname.symm.trans (hnone q hq))
    refine ⟨fun name => ?_, congrArg Finset.card (Finset.ext fun name => ?_)⟩
    · have hzero : inquiries.countP (·.number? = some name) = 0 := by
        simpa [List.countP_eq_zero] using hnever name
      rw [count_reads htable, hzero]
      split <;> omega
    · rw [hmem name, or_iff_left (hnever name)]

/-- Inquiries about models with one table of external classes, made to a classifier that has not
been asked anything before. Each is answered as if it were the only one. The table is read at most
once for a name to learn that the class is an enumeration or not, and the classifier counts the
names for which it is. Each inquiry whether a type is numeric that hangs on the table reads it anew
and is not counted: exactly without such inquiries every name is read at most once and the
classifier counts the names that are read. A run of passes leaves the table, and its inquiries are
a continuation of those before it. -/
theorem replies_of_table (htable : ∀ q ∈ inquiries, q.model.external = table) :
    let all := ({} : Classifier).replies inquiries
    all.answers = inquiries.map Inquiry.alone ∧
      (∀ name, all.reads.count name =
        (if ∃ q ∈ inquiries, q.enumeration? = some name then 1 else 0) +
          inquiries.countP (·.number? = some name)) ∧
      all.classifier.size = (inquiries.filterMap Inquiry.enumeration?).toFinset.card ∧
      (all.reads.Nodup ∧ all.classifier.size = all.reads.toFinset.card ↔
        ∀ q ∈ inquiries, q.number? = none) ∧
      ∀ settings m options, m.external = table →
        let run := synthesize settings m options
        run.model.external = table ∧ (all.classifier.observeAll m run.events).2 =
          (({} : Classifier).replies (inquiries ++ inquiriesOf m run.events)).classifier := by
  refine ⟨((Remembers.nothing table).replies htable).1, count_reads htable, size_replies htable,
    reads_once_iff htable, fun settings m options hm => ⟨?_, ?_⟩⟩
  · exact (synthesize_grows settings m options).external.trans hm
  · rw [observeAll_snd, replies_append]

/-- The question whether a type that no table knows is numeric, asked twice. -/
def numericTwice : List Inquiry :=
  List.replicate 2 { model := {}, question := .numeric (.ofName "ext.Money") }

/-- The table is read twice under one name, and no name is counted. -/
theorem numericTwice_reads :
    (∀ q ∈ numericTwice, q.model.external = ∅) ∧
      (({} : Classifier).replies numericTwice).reads.count "ext.Money" = 2 ∧
      (({} : Classifier).replies numericTwice).classifier.size = 0 := by
  have htable : ∀ q ∈ numericTwice, q.model.external = ∅ := by
    intro q hq
    rw [List.eq_of_mem_replicate hq]
  obtain ⟨-, hreads, hsize, -⟩ := replies_of_table htable
  refine ⟨htable, (hreads "ext.Money").trans ?_, hsize.trans ?_⟩
  · decide +kernel
  · decide +kernel

end

end Classifier

end BeanSynthesis
