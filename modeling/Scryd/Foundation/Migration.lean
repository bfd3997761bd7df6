import Scryd.Foundation.Run

/-!
# Forward-only migrations

A registry lists numbered migrations.  A start of the program applies those
whose number is above the highest one recorded, each in a transaction of its
own that ends with recording its number.  The program may be killed before any
statement: the open transaction is lost then, what was committed stays.
-/

namespace Scryd.Foundation

universe u v

structure Migration (Schema : Type u) (Error : Type v) where
  version : Nat
  statements : List (Schema → Except Error Schema)

/-- What is on the disk.  Before the table of versions exists, `recorded` is `none`. -/
structure Disk (Schema : Type u) where
  schema : Schema
  recorded : Option (List Nat)

/-- A start under way: the open transaction and the migrations after it. -/
structure Session (Schema : Type u) (Error : Type v) where
  working : Schema
  remaining : List (Schema → Except Error Schema)
  version : Nat
  later : List (Migration Schema Error)

inductive MigrationFault (Error : Type v) where
  | statement (version : Nat) (error : Error)
  /-- The primary key of the table of versions. -/
  | recordedTwice (version : Nat)

structure Migrator (Schema : Type u) (Error : Type v) where
  disk : Disk Schema
  session : Option (Session Schema Error)
  faults : List (MigrationFault Error)

inductive MigratorEvent (Schema : Type u) (Error : Type v) where
  | start (registry : List (Migration Schema Error))
  /-- The next statement, or the end of the transaction. -/
  | advance
  | kill

variable {Schema : Type u} {Error : Type v}

/-- The highest version recorded, 0 if none is. -/
def Disk.version (disk : Disk Schema) : Nat :=
  (disk.recorded.getD []).max?.getD 0

/-- Create the table of versions unless it exists. -/
def Disk.bootstrap (disk : Disk Schema) : Disk Schema :=
  { disk with recorded := some (disk.recorded.getD []) }

/-- Open the transaction of the first pending migration. -/
def Session.begin? (disk : Disk Schema) :
    List (Migration Schema Error) → Option (Session Schema Error)
  | [] => none
  | migration :: later => some ⟨disk.schema, migration.statements, migration.version, later⟩

namespace Migrator

def fresh (schema : Schema) : Migrator Schema Error := ⟨⟨schema, none⟩, none, []⟩

def fail (state : Migrator Schema Error) (fault : MigrationFault Error) :
    Migrator Schema Error :=
  { state with session := none, faults := state.faults ++ [fault] }

/-- Record the version of the open transaction, commit it and open the next one. -/
def commit (state : Migrator Schema Error) (session : Session Schema Error) :
    Migrator Schema Error :=
  let recorded := state.disk.recorded.getD []
  if session.version ∈ recorded then state.fail (.recordedTwice session.version)
  else
    let disk : Disk Schema := ⟨session.working, some (recorded ++ [session.version])⟩
    { state with disk := disk, session := Session.begin? disk session.later }

/-- One program at a time: a start beside a running one does nothing. -/
def step (state : Migrator Schema Error) :
    MigratorEvent Schema Error → Migrator Schema Error
  | .start registry =>
      match state.session with
      | some _ => state
      | none =>
          let disk := state.disk.bootstrap
          { state with
            disk := disk
            session := Session.begin? disk
              (registry.filter fun migration => disk.version < migration.version) }
  | .advance =>
      match state.session with
      | none => state
      | some session =>
          match session.remaining with
          | [] => state.commit session
          | statement :: remaining =>
              match statement session.working with
              | .error error => state.fail (.statement session.version error)
              | .ok working =>
                  { state with session := some { session with working, remaining } }
  | .kill => { state with session := none }

end Migrator

/-- The schema after the first migrations of a registry. -/
def schemaAt (registry : List (Migration Schema Error)) (initial : Schema) (count : Nat) : Schema :=
  (execute ((registry.take count).flatMap (·.statements)) initial).2

/-- Versions ascend from above 0, and the whole registry goes through on the initial schema. -/
structure Applicable (registry : List (Migration Schema Error)) (initial : Schema) : Prop where
  ascending : registry.Pairwise fun first second => first.version < second.version
  positive : ∀ migration ∈ registry, 0 < migration.version
  applies : (execute (registry.flatMap (·.statements)) initial).1 = .ok ()

/-- The first migrations are applied and recorded, nothing else. -/
structure Migrated (registry : List (Migration Schema Error)) (initial : Schema) (count : Nat)
    (disk : Disk Schema) : Prop where
  bounded : count ≤ registry.length
  schema : disk.schema = schemaAt registry initial count
  recorded : disk.recorded.getD [] = (registry.take count).map (·.version)

/-- A start of a program that knows the first `known` migrations is applying migration `count`. -/
structure UnderWay (registry : List (Migration Schema Error)) (initial : Schema)
    (known count : Nat) (session : Session Schema Error) : Prop where
  pending : count < known
  within : known ≤ registry.length
  version : session.version = registry[count].version
  later : session.later = (registry.take known).drop (count + 1)
  progress : ∃ before, registry[count].statements = before ++ session.remaining ∧
    execute before (schemaAt registry initial count) = (.ok (), session.working)

structure MigratorInvariant (registry : List (Migration Schema Error)) (initial : Schema)
    (known count : Nat) (state : Migrator Schema Error) : Prop where
  migrated : Migrated registry initial count state.disk
  session : ∀ session, state.session = some session →
    UnderWay registry initial known count session
  faultless : state.faults = []

theorem execute_of_append {first second : List (Schema → Except Error Schema)} {schema : Schema}
    (executed : (execute (first ++ second) schema).1 = .ok ()) :
    execute first schema = (.ok (), (execute first schema).2) := by
  induction first generalizing schema with
  | nil => rfl
  | cons statement rest inductionHypothesis =>
      simp only [List.cons_append, execute] at executed ⊢
      split at executed
      next after succeeded => exact inductionHypothesis executed
      next error failed => cases executed

section Applicable

variable {registry : List (Migration Schema Error)} {initial : Schema}

/-- Each migration goes through on what the ones before it leave. -/
theorem Applicable.applies_at (applicable : Applicable registry initial) {count : Nat}
    (bounded : count < registry.length) :
    execute registry[count].statements (schemaAt registry initial count) =
      (.ok (), schemaAt registry initial (count + 1)) := by
  have prefix_executed : ∀ upTo, execute ((registry.take upTo).flatMap (·.statements)) initial =
      (.ok (), schemaAt registry initial upTo) := by
    intro upTo
    have whole := applicable.applies
    rw [← List.take_append_drop upTo registry, List.flatMap_append] at whole
    exact execute_of_append whole
  have next := prefix_executed (count + 1)
  rw [List.take_add_one, List.getElem?_eq_getElem bounded, List.flatMap_append,
    execute_append (prefix_executed count)] at next
  simpa using next

/-- Exactly the migrations that are not applied yet have a version above the one on the disk. -/
theorem Migrated.pending {count : Nat} {disk : Disk Schema}
    (applicable : Applicable registry initial)
    (migrated : Migrated registry initial count disk) (known : Nat) :
    (registry.take known).filter (fun migration => disk.version < migration.version) =
      (registry.take known).drop count := by
  have applied : ∀ migration ∈ registry.take count, migration.version ≤ disk.version := by
    intro migration isApplied
    rw [Disk.version, migrated.recorded]
    exact List.le_max?_getD_of_mem (List.mem_map_of_mem isApplied)
  have above : ∀ migration ∈ registry.drop count, disk.version < migration.version := by
    intro migration isPending
    rw [Disk.version, migrated.recorded]
    cases highest : ((registry.take count).map (·.version)).max? with
    | none => exact applicable.positive migration (List.mem_of_mem_drop isPending)
    | some version =>
        obtain ⟨last, isApplied, rfl⟩ := List.mem_map.mp (List.max?_mem highest)
        have ascending := applicable.ascending
        rw [← List.take_append_drop count registry, List.pairwise_append] at ascending
        exact ascending.2.2 last isApplied migration isPending
  let isPending (migration : Migration Schema Error) : Bool := disk.version < migration.version
  have noneApplied : ((registry.take known).take count).filter isPending = [] := by
    rw [List.filter_eq_nil_iff]
    intro migration isApplied
    rw [List.take_take] at isApplied
    have inFirst := (List.take_sublist_take_left (Nat.min_le_left count known)).mem isApplied
    simpa [isPending] using applied migration inFirst
  have allPending : ((registry.take known).drop count).filter isPending =
      (registry.take known).drop count := by
    rw [List.filter_eq_self]
    intro migration isLater
    rw [List.drop_take] at isLater
    exact decide_eq_true (above migration (List.mem_of_mem_take isLater))
  calc (registry.take known).filter isPending
      = ((registry.take known).take count).filter isPending ++
          ((registry.take known).drop count).filter isPending := by
        rw [← List.filter_append, List.take_append_drop]
    _ = (registry.take known).drop count := by rw [noneApplied, allPending, List.nil_append]

/-- Opening the next transaction. -/
theorem Migrated.begin {known count : Nat} {disk : Disk Schema}
    (migrated : Migrated registry initial count disk) (within : known ≤ registry.length) :
    (known ≤ count ∧ Session.begin? disk ((registry.take known).drop count) = none) ∨
    (count < known ∧ ∃ session,
      Session.begin? disk ((registry.take known).drop count) = some session ∧
      UnderWay registry initial known count session) := by
  by_cases finished : known ≤ count
  · have nothing : (registry.take known).drop count = [] := by
      rw [List.drop_eq_nil_iff, List.length_take]
      omega
    exact .inl ⟨finished, by rw [nothing, Session.begin?]⟩
  · have inKnown : count < (registry.take known).length := by
      rw [List.length_take]
      omega
    rw [List.drop_eq_getElem_cons inKnown]
    refine .inr ⟨by omega, _, rfl, ?_⟩
    exact {
      pending := by omega
      within
      version := by rw [List.getElem_take]
      later := rfl
      progress := ⟨[], by rw [List.getElem_take, List.nil_append], by
        rw [execute, migrated.schema]⟩ }

end Applicable

section Steps

variable {registry : List (Migration Schema Error)} {initial : Schema} {known count : Nat}
  {state : Migrator Schema Error} {session : Session Schema Error}

theorem MigratorInvariant.of_begin {disk : Disk Schema}
    (migrated : Migrated registry initial count disk) (within : known ≤ registry.length)
    (faultless : state.faults = []) :
    MigratorInvariant registry initial known count
      { state with
        disk := disk
        session := Session.begin? disk ((registry.take known).drop count) } where
  migrated
  session session opened := by
    rcases migrated.begin within with ⟨-, nothing⟩ | ⟨-, other, begun, underWay⟩
    · cases nothing.symm.trans opened
    · cases begun.symm.trans opened
      exact underWay
  faultless

/-- The last statement of a transaction has gone through: the commit succeeds. -/
theorem MigratorInvariant.commit (applicable : Applicable registry initial)
    (invariant : MigratorInvariant registry initial known count state)
    (underWay : UnderWay registry initial known count session) (finished : session.remaining = []) :
    ∃ disk, Migrated registry initial (count + 1) disk ∧ state.commit session =
      { state with
        disk := disk
        session := Session.begin? disk ((registry.take known).drop (count + 1)) } := by
  obtain ⟨pending, within, version, later, before, isBody, executed⟩ := underWay
  have inRegistry : count < registry.length := by omega
  rw [finished, List.append_nil] at isBody
  rw [← isBody, applicable.applies_at inRegistry] at executed
  have working : session.working = schemaAt registry initial (count + 1) := by
    injection executed with _ same
    exact same.symm
  have unrecorded : session.version ∉ (registry.take count).map (·.version) := by
    rw [version]
    intro recorded
    obtain ⟨earlier, isApplied, same⟩ := List.mem_map.mp recorded
    have ascending := applicable.ascending
    rw [← List.take_append_drop count registry, List.pairwise_append] at ascending
    have isLater : registry[count] ∈ registry.drop count := by
      rw [List.drop_eq_getElem_cons inRegistry]
      exact List.mem_cons_self
    exact absurd same (Nat.ne_of_lt (ascending.2.2 earlier isApplied _ isLater))
  refine ⟨⟨session.working, some ((registry.take count).map (·.version) ++ [session.version])⟩,
    ⟨inRegistry, working, ?_⟩, ?_⟩
  · rw [Option.getD_some, List.take_add_one, List.getElem?_eq_getElem inRegistry, List.map_append,
      version]
    rfl
  · rw [Migrator.commit, invariant.migrated.recorded, if_neg unrecorded, later]

/-- A statement of a transaction goes through. -/
theorem UnderWay.advance (applicable : Applicable registry initial)
    (underWay : UnderWay registry initial known count session)
    {statement : Schema → Except Error Schema} {remaining : List (Schema → Except Error Schema)}
    (next : session.remaining = statement :: remaining) :
    ∃ working, statement session.working = .ok working ∧
      UnderWay registry initial known count { session with working, remaining } := by
  obtain ⟨pending, within, version, later, before, isBody, executed⟩ := underWay
  have whole := applicable.applies_at (Nat.lt_of_lt_of_le pending within)
  rw [isBody, next, execute_append executed, execute] at whole
  cases outcome : statement session.working with
  | error error =>
      rw [outcome] at whole
      cases whole
  | ok working =>
      refine ⟨working, rfl, pending, within, version, later, before ++ [statement], ?_, ?_⟩
      · rw [isBody, next, List.append_assoc, List.singleton_append]
      · rw [execute_append executed]
        simp only [execute, outcome]

theorem Migrated.bootstrap {disk : Disk Schema} (migrated : Migrated registry initial count disk) :
    Migrated registry initial count disk.bootstrap :=
  ⟨migrated.bounded, migrated.schema, migrated.recorded⟩

/-- A start with the first `known` migrations. -/
theorem MigratorInvariant.start (applicable : Applicable registry initial)
    (migrated : Migrated registry initial count state.disk) (faultless : state.faults = [])
    (idle : state.session = none) (within : known ≤ registry.length) :
    MigratorInvariant registry initial known count
      (state.step (.start (registry.take known))) := by
  rw [Migrator.step, idle]
  dsimp only
  rw [migrated.bootstrap.pending applicable known]
  exact .of_begin migrated.bootstrap within faultless

theorem MigratorInvariant.advance (applicable : Applicable registry initial)
    (invariant : MigratorInvariant registry initial known count state) :
    ∃ next, count ≤ next ∧ MigratorInvariant registry initial known next (state.step .advance) := by
  cases opened : state.session with
  | none => exact ⟨count, Nat.le_refl count, by simpa only [Migrator.step, opened] using invariant⟩
  | some session =>
      have underWay := invariant.session session opened
      simp only [Migrator.step, opened]
      cases next : session.remaining with
      | nil =>
          obtain ⟨disk, migrated, committed⟩ := invariant.commit applicable underWay next
          refine ⟨count + 1, Nat.le_succ count, ?_⟩
          rw [committed]
          exact .of_begin migrated underWay.within invariant.faultless
      | cons statement remaining =>
          obtain ⟨working, succeeded, advanced⟩ := underWay.advance applicable next
          refine ⟨count, Nat.le_refl count, ?_⟩
          simp only [succeeded]
          exact ⟨invariant.migrated, fun other same => Option.some.inj same ▸ advanced,
            invariant.faultless⟩

/-- A start is of a program that knows the first migrations of the registry. -/
def MigratorEvent.Released (registry : List (Migration Schema Error)) :
    MigratorEvent Schema Error → Prop
  | .start own => own <+: registry
  | .advance => True
  | .kill => True

theorem MigratorInvariant.step (applicable : Applicable registry initial)
    (invariant : MigratorInvariant registry initial known count state)
    {event : MigratorEvent Schema Error} (released : event.Released registry) :
    ∃ known next, count ≤ next ∧
      MigratorInvariant registry initial known next (state.step event) := by
  cases event with
  | start own =>
      cases idle : state.session with
      | some session =>
          exact ⟨known, count, Nat.le_refl count,
            by simpa only [Migrator.step, idle] using invariant⟩
      | none =>
          refine ⟨own.length, count, Nat.le_refl count, ?_⟩
          rw [List.prefix_iff_eq_take.mp released]
          have within := released.length_le
          rw [List.length_take_of_le within]
          exact .start applicable invariant.migrated invariant.faultless idle within
  | advance =>
      obtain ⟨next, grown, holds⟩ := invariant.advance applicable
      exact ⟨known, next, grown, holds⟩
  | kill =>
      exact ⟨known, count, Nat.le_refl count, {
        migrated := invariant.migrated
        session := fun _ opened => nomatch opened
        faultless := invariant.faultless }⟩

/-- Whatever is started and killed, some first migrations are applied, more and more of them. -/
theorem MigratorInvariant.run (applicable : Applicable registry initial)
    (invariant : MigratorInvariant registry initial known count state)
    {events : List (MigratorEvent Schema Error)}
    (released : ∀ event ∈ events, event.Released registry) :
    ∃ known next, count ≤ next ∧ MigratorInvariant registry initial known next
      (Foundation.run Migrator.step state events) := by
  induction events generalizing known count state with
  | nil => exact ⟨known, count, Nat.le_refl count, invariant⟩
  | cons event rest inductionHypothesis =>
      obtain ⟨releasedHere, releasedLater⟩ := List.forall_mem_cons.mp released
      obtain ⟨_, reached, grown, holds⟩ := invariant.step applicable releasedHere
      obtain ⟨known, next, further, last⟩ := inductionHypothesis holds releasedLater
      exact ⟨known, next, Nat.le_trans grown further, last⟩

theorem MigratorInvariant.fresh (registry : List (Migration Schema Error)) (initial : Schema) :
    MigratorInvariant registry initial 0 0 (.fresh initial) where
  migrated := { bounded := Nat.zero_le _, schema := rfl, recorded := rfl }
  session _ opened := nomatch opened
  faultless := rfl

end Steps

section Completion

variable {registry : List (Migration Schema Error)} {initial : Schema} {known count : Nat}
  {state : Migrator Schema Error}

/-- Statements and commits that a start has ahead of it. -/
def Session.left (session : Session Schema Error) : Nat :=
  session.remaining.length + 1 +
    session.later.foldr (fun migration steps => migration.statements.length + 1 + steps) 0

/-- Steps that a start needs at most to end. -/
def Migrator.left (state : Migrator Schema Error) : Nat :=
  (state.session.map Session.left).getD 0

theorem Migrator.run_advance_idle (idle : state.session = none) (rounds : Nat) :
    run Migrator.step state (List.replicate rounds .advance) = state := by
  induction rounds with
  | zero => rfl
  | succ rounds inductionHypothesis =>
      rw [List.replicate_succ, run_cons]
      simpa only [Migrator.step, idle] using inductionHypothesis

/-- A start that is left alone applies everything it knows. -/
theorem MigratorInvariant.complete (applicable : Applicable registry initial)
    (invariant : MigratorInvariant registry initial known count state)
    (busy : state.session ≠ none) {rounds : Nat} (enough : state.left ≤ rounds) :
    (Foundation.run Migrator.step state (List.replicate rounds .advance)).session = none ∧
      Migrated registry initial known
        (Foundation.run Migrator.step state (List.replicate rounds .advance)).disk := by
  induction rounds generalizing count state with
  | zero =>
      obtain ⟨session, opened⟩ := Option.ne_none_iff_exists'.mp busy
      simp only [Migrator.left, opened, Option.map_some, Option.getD_some, Session.left] at enough
      omega
  | succ rounds inductionHypothesis =>
      obtain ⟨session, opened⟩ := Option.ne_none_iff_exists'.mp busy
      have underWay := invariant.session session opened
      simp only [Migrator.left, opened, Option.map_some, Option.getD_some, Session.left] at enough
      rw [List.replicate_succ, run_cons]
      cases next : session.remaining with
      | cons statement remaining =>
          obtain ⟨working, succeeded, advanced⟩ := underWay.advance applicable next
          simp only [Migrator.step, opened, next, succeeded]
          refine inductionHypothesis ⟨invariant.migrated, ?_, invariant.faultless⟩
            (Option.some_ne_none _) ?_
          · exact fun other same => Option.some.inj same ▸ advanced
          · rw [next, List.length_cons] at enough
            simp only [Migrator.left, Option.map_some, Option.getD_some, Session.left]
            omega
      | nil =>
          obtain ⟨disk, migrated, committed⟩ := invariant.commit applicable underWay next
          simp only [Migrator.step, opened, next, committed]
          rcases migrated.begin underWay.within with
            ⟨finished, nothing⟩ | ⟨-, later, begun, nextUnderWay⟩
          · have last : count + 1 = known := by
              have := underWay.pending
              omega
            rw [nothing, Migrator.run_advance_idle rfl]
            exact ⟨rfl, last ▸ migrated⟩
          · refine inductionHypothesis
              (.of_begin migrated underWay.within invariant.faultless) ?_ ?_
            · rw [begun]
              exact Option.some_ne_none _
            · have inKnown : count + 1 < (registry.take known).length := by
                have := nextUnderWay.pending
                have := underWay.within
                rw [List.length_take]
                omega
              rw [underWay.later, List.drop_eq_getElem_cons inKnown, List.foldr_cons] at enough
              rw [List.drop_eq_getElem_cons inKnown]
              simp only [Migrator.left, Session.begin?, Option.map_some, Option.getD_some,
                Session.left]
              omega

/-- A start of a program that nobody kills. -/
theorem MigratorInvariant.start_complete (applicable : Applicable registry initial)
    (migrated : Migrated registry initial count state.disk) (faultless : state.faults = [])
    (idle : state.session = none) (within : known ≤ registry.length) {rounds : Nat}
    (enough : (state.step (.start (registry.take known))).left ≤ rounds) :
    let reached := Foundation.run Migrator.step state
      (.start (registry.take known) :: List.replicate rounds .advance)
    reached.session = none ∧ reached.faults = [] ∧
      Migrated registry initial (max count known) reached.disk := by
  intro reached
  have started := MigratorInvariant.start applicable migrated faultless idle within
  have isReached : reached = Foundation.run Migrator.step
      (state.step (.start (registry.take known))) (List.replicate rounds .advance) := run_cons ..
  cases opened : (state.step (.start (registry.take known))).session with
  | none =>
      rw [isReached, Migrator.run_advance_idle opened]
      have nothing : known ≤ count := by
        rw [Migrator.step, idle] at opened
        dsimp only at opened
        rw [migrated.bootstrap.pending applicable known] at opened
        rcases migrated.bootstrap.begin within with ⟨finished, -⟩ | ⟨-, session, begun, -⟩
        · exact finished
        · cases opened.symm.trans begun
      rw [Nat.max_eq_left nothing]
      exact ⟨opened, started.faultless, started.migrated⟩
  | some session =>
      have pending := (started.session session opened).pending
      rw [Nat.max_eq_right (Nat.le_of_lt pending), isReached]
      obtain ⟨ended, applied⟩ := started.complete applicable
        (opened ▸ Option.some_ne_none session) enough
      have released : ∀ event ∈ List.replicate rounds (.advance : MigratorEvent Schema Error),
          event.Released registry :=
        fun event isAdvance => List.eq_of_mem_replicate isAdvance ▸ trivial
      obtain ⟨_, _, _, last⟩ := started.run applicable released
      exact ⟨ended, last.faultless, applied⟩

end Completion

end Scryd.Foundation
