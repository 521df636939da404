import ClassLift.Proofs.Analysis.Evolution

namespace ClassLift

namespace ClassTable

variable {config : Config} {table last : ClassTable} {warnings : List Warning}

theorem forEach_append {step : ClassTable → ClassId → Except DescriptorError (ClassTable × List Warning)}
    {early late : List ClassId} (ran : table.forEach step (early ++ late) = .ok (last, warnings)) :
    ∃ middle first second, table.forEach step early = .ok (middle, first) ∧ middle.forEach step late = .ok (last, second) := by
  induction early generalizing table warnings with
  | nil => exact ⟨table, [], warnings, rfl, ran⟩
  | cons id rest continues =>
    obtain ⟨⟨between, found⟩, first, ran⟩ := except_bind_ok.mp ran
    obtain ⟨⟨final, more⟩, later, same⟩ := except_bind_ok.mp ran
    cases same
    obtain ⟨middle, one, other, before, after⟩ := continues later
    refine ⟨middle, found ++ one, other, ?_, after⟩
    exact except_bind_ok.mpr ⟨_, first, except_bind_ok.mpr ⟨_, before, rfl⟩⟩

/-- The tables that the analysis has after all classes are surveyed and after the idioms of the class at `home` are recovered. -/
structure Course (config : Config) (table : ClassTable) (root home : ClassId) (surveyed recovered : ClassTable) : Prop where
  surveys : ∃ warnings, table.forEach (survey config) (table.subtree root) = .ok (surveyed, warnings)
  recovers : ∃ before after reached rebuilding recovering, table.subtree root = before ++ home :: after ∧ home ∉ before ∧
    surveyed.forEach (rebuild config) before = .ok (reached, rebuilding) ∧ reached.recover home = .ok (recovered, recovering)

variable {lifts : Prop} {root home : ClassId} {index : Nat} {method : Method} {code : Code} {worked : ClassId → Prop}

theorem Recovers.code_eq_some {result : Method} (recovers : Recovers home index method result) (body : method.code = some code) :
    ∃ made, result.code = some made ∧ (result.flagged = true →
      made.store = code.store ∧ made.instructions = code.instructions ∧ made.handlers = code.handlers ∧
      made.statements = if method.flagged then code.statements else code.instructions) := by
  cases recovers with
  | skipped skips flagged kept =>
    refine ⟨code, kept.trans body, fun flag => ⟨rfl, rfl, rfl, ?_⟩⟩
    rw [if_pos (flagged.symm.trans flag)]
  | done found draft before last unflagged given ran flagged made =>
    refine ⟨_, made, fun flag => ?_⟩
    cases flagged.symm.trans flag
  | failed found error before last unflagged given ran flagged made =>
    cases body.symm.trans given
    refine ⟨_, made, fun _ => ⟨rfl, rfl, rfl, ?_⟩⟩
    simp [unflagged]

theorem analyze_course {analysis : Analysis} (ran : table.analyze config root = .ok analysis)
    (inside : home ∈ table.subtree root) :
    ∃ surveyed recovered, Course config table root home surveyed recovered ∧
      recovered.Develops (config.liftInitializers = true) True (fun _ => True) analysis.table := by
  obtain ⟨⟨surveyed, surveying⟩, surveys, ran⟩ := except_bind_ok.mp ran
  obtain ⟨⟨rebuilt, rebuilding⟩, rebuilds, same⟩ := except_bind_ok.mp ran
  cases same
  obtain ⟨before, after, visits, first⟩ := List.eq_append_cons_of_mem inside
  rw [visits] at rebuilds
  obtain ⟨reached, early, _, reaches, rebuilds⟩ := forEach_append rebuilds
  obtain ⟨⟨next, _⟩, rebuild, rebuilds⟩ := except_bind_ok.mp rebuilds
  obtain ⟨⟨final, _⟩, rest, same⟩ := except_bind_ok.mp rebuilds
  cases same
  obtain ⟨⟨recovered, recovering⟩, recovers, rebuild⟩ := except_bind_ok.mp rebuild
  obtain ⟨⟨finished, _⟩, finishes, same⟩ := except_bind_ok.mp rebuild
  cases same
  refine ⟨surveyed, recovered, ⟨⟨_, surveys⟩, before, after, reached, early, recovering, visits, first, reaches, recovers⟩, ?_⟩
  exact ((update_develops ClassFile.finish_develops finishes).widen fun _ _ => trivial).trans
    ((forEach_develops rebuild_develops _ rest).widen fun _ _ => trivial)

/-- A method that is flagged when its class is surveyed, or because its idioms cannot be recovered, keeps its nodes, its raw list
and its handlers to the end. Its statements are the raw list again if a pass failed, and else what they were. -/
theorem analyze_rolls_back (config : Config) (table : ClassTable) (root : ClassId) (analysis : Analysis)
    (ran : table.analyze config root = .ok analysis) (home : ClassId) (inside : home ∈ table.subtree root) (index : Nat)
    (method : Method) (code : Code) (given : table.method? home index = some method) (body : method.code = some code) :
    ∃ surveyed recovered seen tried final kept, Course config table root home surveyed recovered ∧
      surveyed.method? home index = some seen ∧ recovered.method? home index = some tried ∧
      analysis.table.method? home index = some final ∧ final.code = some kept ∧
      (method.flagged = true → seen.flagged = true) ∧ Recovers home index seen tried ∧
      (tried.flagged = true →
        final.flagged = true ∧ kept.store = code.store ∧ kept.instructions = code.instructions ∧
        kept.handlers = code.handlers ∧ kept.statements = if seen.flagged then code.statements else code.instructions) := by
  obtain ⟨surveyed, recovered, course, ends⟩ := analyze_course ran inside
  obtain ⟨_, surveys⟩ := course.surveys
  obtain ⟨before, after, reached, _, _, _, first, reaches, recovers⟩ := course.recovers
  have surveying : table.Develops True False (· ∈ table.subtree root) surveyed := forEach_develops survey_develops _ surveys
  obtain ⟨seen, _, seenAt, seenDevelops, _⟩ := surveying.method? given
  obtain ⟨seenBody, seenCode, kept⟩ := seenDevelops.code_eq_some body
  obtain ⟨store, statements⟩ := kept.body.resolve_left (·.1)
  -- the classes that are rebuilt before this one at most mark its methods
  obtain ⟨marked, _, markedAt, _, untouched⟩ := (forEach_develops rebuild_develops before reaches).method? seenAt
  obtain ⟨tried, triedAt, outcome⟩ := recover_recovers recovers markedAt
  have outcome := outcome.marked_before (untouched.resolve_left first)
  obtain ⟨triedBody, triedCode, rolledBack⟩ := outcome.code_eq_some seenCode
  obtain ⟨final, _, finalAt, finalDevelops, _⟩ := ends.method? triedAt
  obtain ⟨finalBody, finalCode, later⟩ := finalDevelops.code_eq_some triedCode
  refine ⟨surveyed, recovered, seen, tried, final, finalBody, course, seenAt, triedAt, finalAt, finalCode,
    seenDevelops.flagged, outcome, fun flagged => ?_⟩
  obtain ⟨triedStore, triedInstructions, triedHandlers, triedStatements⟩ := rolledBack flagged
  obtain ⟨finalStore, finalStatements⟩ := later.body.resolve_left (by simp [flagged])
  refine ⟨finalDevelops.flagged flagged, finalStore.trans (triedStore.trans store),
    later.instructions.trans (triedInstructions.trans kept.instructions),
    later.handlers.trans (triedHandlers.trans kept.handlers), ?_⟩
  rw [finalStatements, triedStatements, statements, kept.instructions]

/-! A `?:` without a use, behind an increment that was folded into the next statement before the failure. -/

def unusedChoice (statements : List NodeId) : Code where
  store := ⟨#[⟨0, none, .bump 1 1⟩, ⟨3, none, .read (.slot .int 1)⟩, ⟨4, none, .write (.slot .int 2) 1⟩,
    ⟨5, none, .read (.slot .int 0)⟩, ⟨6, none, .branch (.zero .eq 3) 14⟩, ⟨9, none, .literal (.int 1)⟩,
    ⟨10, none, .pendingConditional 5 14⟩, ⟨11, none, .goto 15⟩]⟩
  maxLocals := 3
  instructions := [0, 2, 4, 6, 7]
  statements := statements

def choosing (flagged : Bool) (failing sibling : List NodeId) : ClassTable :=
  ⟨#[{ thisIndex := 2
       pool := ⟨#[none, some (.utf8 "a/Main"), some (.classInfo 1), some (.utf8 "f"), some (.utf8 "(I)V")]⟩
       methods := #[{ access := ⟨8⟩, nameIndex := 3, descriptorIndex := 4, code := some (unusedChoice failing), flagged },
         { access := ⟨8⟩, nameIndex := 3, descriptorIndex := 4
           code := some { store := ⟨#[⟨0, none, .ret none⟩]⟩, instructions := [0], statements := sibling } }] }]⟩

def nameless : Config := { nameLocals := false }

theorem survey_choosing :
    (choosing false [] []).forEach (survey nameless) ((choosing false [] []).subtree 0) = .ok (choosing false [] [], []) := by
  with_unfolding_all rfl

theorem recover_choosing :
    (choosing false [] []).recover 0 =
      .ok (choosing true [0, 2, 4, 6, 7] [0], [.flagged "f" .unconsumedConditional]) := by
  with_unfolding_all rfl

theorem analyze_choosing : ((choosing false [] []).analyze nameless 0).isOk = true := by
  with_unfolding_all rfl

theorem Course.choosing {surveyed recovered : ClassTable}
    (course : Course nameless (choosing false [] []) 0 0 surveyed recovered) :
    surveyed = choosing false [] [] ∧ recovered = choosing true [0, 2, 4, 6, 7] [0] := by
  obtain ⟨_, surveys⟩ := course.surveys
  obtain ⟨before, after, reached, _, _, visits, first, reaches, recovers⟩ := course.recovers
  obtain rfl : ClassTable.choosing false [] [] = surveyed := congrArg Prod.fst (Except.ok.inj (survey_choosing.symm.trans surveys))
  cases before with
  | nil =>
    cases reaches
    exact ⟨rfl, congrArg Prod.fst (Except.ok.inj (recovers.symm.trans recover_choosing))⟩
  | cons head rest =>
    have visits : [0] = head :: (rest ++ 0 :: after) := visits
    simp at visits

/-- The increment is two statements again. -/
theorem choosing_rolls_back :
    ∃ analysis final kept, (choosing false [] []).analyze nameless 0 = .ok analysis ∧
      analysis.table.method? 0 0 = some final ∧ final.flagged = true ∧ final.code = some kept ∧
      kept.store = (unusedChoice []).store ∧ kept.statements = [0, 2, 4, 6, 7] := by
  cases ran : (choosing false [] []).analyze nameless 0 with
  | error error =>
    have succeeds := analyze_choosing
    rw [ran] at succeeds
    cases succeeds
  | ok analysis =>
    obtain ⟨surveyed, recovered, seen, tried, final, kept, course, seenAt, triedAt, finalAt, body, _, _, rolled⟩ :=
      analyze_rolls_back nameless (choosing false [] []) 0 analysis ran 0 (by decide) 0 _ _ rfl rfl
    obtain ⟨rfl, rfl⟩ := course.choosing
    cases seenAt
    cases triedAt
    obtain ⟨flagged, store, _, _, statements⟩ := rolled rfl
    exact ⟨analysis, final, kept, rfl, finalAt, flagged, body, store, statements⟩

end ClassTable

end ClassLift
