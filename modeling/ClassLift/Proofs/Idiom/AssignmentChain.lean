import ClassLift.Proofs.Idiom.Assignment
import ClassLift.Proofs.Idiom.Sweep

namespace ClassLift

namespace Store

variable {store before middle after : Store} {early late sources : List NodeId} {root use held id : NodeId} {kind : Kind}

/-- Nodes that repeat none of the values held by the sources are as they were. -/
def Retains (sources : List NodeId) (before after : Store) : Prop :=
  ∀ id node, before.node? id = some node → (∀ source ∈ sources, node.kind ≠ .dupLoad source) → after.node? id = some node

namespace Retains

theorem refl (store : Store) : Retains [] store store := fun _ _ found _ => found

theorem trans (first : Retains early before middle) (second : Retains late middle after) :
    Retains (early ++ late) before after := fun id node found noLoad =>
  second id node (first id node found fun source among => noLoad source (List.mem_append_left _ among))
    fun source among => noLoad source (List.mem_append_right _ among)

theorem kind? (retains : Retains sources before after) (found : before.kind? id = some kind)
    (noLoad : ∀ source ∈ sources, kind ≠ .dupLoad source) : after.kind? id = some kind := by
  obtain ⟨node, located, rfl⟩ := kind?_eq_some.mp found
  exact kind?_of_node? (retains id node located noLoad)

theorem line? (retains : Retains sources before after) (found : before.kind? id = some kind)
    (noLoad : ∀ source, kind ≠ .dupLoad source) : after.line? id = before.line? id := by
  obtain ⟨node, located, rfl⟩ := kind?_eq_some.mp found
  rw [Store.line?, Store.line?, located, retains id node located fun source _ => noLoad source]

theorem avoids {avoided : NodeId → Prop} (retains : Retains sources before after)
    (subset : ∀ source ∈ sources, avoided source) (avoids : before.Avoids avoided root) : after.Avoids avoided root := by
  refine avoids.congr fun id reached => ?_
  obtain ⟨kind, found, noLoad⟩ := avoids id reached
  exact (retains.kind? found fun source among => noLoad source (subset source among)).trans found.symm

end Retains

theorem loads_eq_nil {source : NodeId} (found : store.kind? root = some kind) (noLoad : kind ≠ .dupLoad source)
    (quiet : ∀ child ∈ kind.children,
      (∃ held ≠ source, store.kind? child = some (.dupLoad held)) ∨ store.Avoids (· = source) child) :
    store.loads source root = [] := by
  rw [loads_of_children found noLoad, List.filter_eq_nil_iff]
  all_goals
    intro child member
    rcases quiet child member with ⟨held, apart, load⟩ | avoids
  · simp [isDupLoadOf_of_load load, apart]
  · simp [avoids.isDupLoadOf rfl]
  · exact .inl ⟨held, load⟩
  · exact .inr avoids

/-! ## The way to the last operand -/

/-- So many steps from a root to a node, each to the last operand; the operands beside the way repeat none of the sources. -/
inductive Spine (store : Store) (sources : List NodeId) : Nat → NodeId → NodeId → Prop
  | here (id : NodeId) : Spine store sources 0 id id
  | down {depth : Nat} {id child use : NodeId} {kind : Kind} {beside : List NodeId} (found : store.kind? id = some kind)
      (noLoad : ∀ source, kind ≠ .dupLoad source) (children : kind.children = beside ++ [child])
      (quiet : ∀ other ∈ beside, store.Avoids (· ∈ sources) other) (onward : Spine store sources depth child use) :
      Spine store sources (depth + 1) id use

namespace Spine

variable {depth : Nat}

theorem filter_preorderWithin (spine : Spine store sources depth root use) (load : store.kind? use = some (.dupLoad held))
    {source : NodeId} (among : source ∈ sources) (more : Nat) :
    (store.preorderWithin (more + 1 + depth) root).filter (store.isDupLoadOf · source) =
      [use].filter (store.isDupLoadOf · source) := by
  induction spine with
  | here id => exact filter_preorderWithin_load load more
  | @down depth id child use kind beside found noLoad children quiet _ continues =>
    rw [← Nat.add_assoc, filter_preorderWithin_succ found (noLoad source), children, List.flatMap_append,
      List.flatMap_eq_nil_iff.mpr fun other member => (quiet other member).filter_preorderWithin among _, List.nil_append,
      List.flatMap_singleton, continues load]

theorem loads (spine : Spine store sources depth root use) (load : store.kind? use = some (.dupLoad held))
    (among : held ∈ sources) (deep : depth < store.size) : store.loads held root = [use] := by
  obtain ⟨more, size⟩ := Nat.exists_eq_add_of_lt deep
  rw [Store.loads, preorder, size, show depth + more + 1 = more + 1 + depth by omega, spine.filter_preorderWithin load among,
    List.filter_singleton, isDupLoadOf_of_load load, beq_self_eq_true]
  rfl

theorem extend (spine : Spine before sources depth root use) (retains : Retains [held] before after) (among : held ∈ sources)
    (found : after.kind? use = some kind) (noLoad : ∀ source, kind ≠ .dupLoad source) {beside : List NodeId} {child : NodeId}
    (children : kind.children = beside ++ [child]) (quiet : ∀ other ∈ beside, after.Avoids (· ∈ sources) other) :
    Spine after sources (depth + 1) root child := by
  induction spine with
  | here id => exact .down found noLoad children quiet (.here child)
  | down foundHere noLoadHere childrenHere quietHere _ continues =>
    refine .down (retains.kind? foundHere fun source _ => noLoadHere source) noLoadHere childrenHere
      (fun other member => ?_) (continues found)
    exact retains.avoids (fun source same => List.mem_singleton.mp same ▸ among) (quietHere other member)

end Spine

end Store

namespace Assignment

open Draft Store

structure Link where
  held : NodeId
  put : NodeId
  place : Place

def code : List Link → List NodeId
  | [] => []
  | link :: earlier => code earlier ++ [link.held, link.put]

/-- `use` stands for the value at the end of a chain: the value itself, or a repeat of what the last link holds. Neither the
value nor the places repeat a value of the sources. -/
inductive Chained (store : Store) (sources : List NodeId) (value : NodeId) : List Link → NodeId → Prop
  | value (quiet : store.Avoids (· ∈ sources) value) : Chained store sources value [] value
  | link {link : Link} {earlier : List Link} {inner stored use : NodeId} (found : store.kind? link.held = some (.dupStore inner))
      (written : store.kind? link.put = some (.write link.place stored))
      (target : store.kind? stored = some (.dupLoad link.held))
      (quiet : ∀ operand ∈ link.place.operands, store.Avoids (· ∈ sources) operand)
      (repeats : store.kind? use = some (.dupLoad link.held)) (chained : Chained store sources value earlier inner) :
      Chained store sources value (link :: earlier) use

inductive Assigned (store : Store) (value : NodeId) : List Link → NodeId → Prop
  | value : Assigned store value [] value
  | link {link : Link} {earlier : List Link} {target inner use : NodeId}
      (found : store.kind? use = some (.assign .plain target inner)) (reads : store.kind? target = some (.read link.place))
      (assigned : Assigned store value earlier inner) : Assigned store value (link :: earlier) use

section Chain

variable {store after : Store} {sources : List NodeId} {value use inner source held : NodeId} {links earlier others : List Link}
  {link : Link}

/-! ## What a chain holds -/

theorem Chained.use_cases (chained : Chained store sources value links use) :
    (∃ link ∈ links, store.kind? use = some (.dupLoad link.held)) ∨ store.Avoids (· ∈ sources) use := by
  cases chained with
  | value quiet => exact .inr quiet
  | link _ _ _ _ repeats _ => exact .inl ⟨_, List.mem_cons_self, repeats⟩

theorem Chained.length_unique (one : Chained store sources value links use) (other : Chained store sources value others use)
    (covered : ∀ link ∈ links ++ others, link.held ∈ sources) : links.length = others.length := by
  induction one generalizing others with
  | value quiet =>
    cases other with
    | value => rfl
    | @link link _ _ _ _ _ _ _ _ repeats _ => exact absurd (covered link (by simp)) (quiet.not_load repeats)
  | @link link earlier inner stored use found _ _ _ repeats chained continues =>
    cases other with
    | value quiet => exact absurd (covered link (by simp)) (quiet.not_load repeats)
    | @link other others _ _ _ foundOther _ _ _ repeatsOther chainedOther =>
      have same : link.held = other.held := Kind.dupLoad.inj (Option.some_inj.mp (repeats.symm.trans repeatsOther))
      rw [← same] at foundOther
      cases found.symm.trans foundOther
      refine congrArg (· + 1) (continues chainedOther fun among member => covered among ?_)
      simp only [List.mem_append, List.mem_cons] at member ⊢
      exact member.imp .inr .inr

theorem Chained.at_mem (chained : Chained store sources value links use) (member : link ∈ links) :
    ∃ earlier inner, store.kind? link.held = some (.dupStore inner) ∧ Chained store sources value earlier inner ∧
      earlier.length < links.length ∧ earlier ⊆ links := by
  induction chained with
  | value => cases member
  | @link head rest inner _ _ found _ _ _ _ chained continues =>
    rcases List.mem_cons.mp member with rfl | member
    · exact ⟨rest, inner, found, chained, Nat.lt_succ_self _, List.subset_cons_self _ _⟩
    · obtain ⟨earlier, below, located, onward, shorter, subset⟩ := continues member
      exact ⟨earlier, below, located, onward, Nat.lt_succ_of_lt shorter, List.Subset.trans subset (List.subset_cons_self _ _)⟩

theorem Chained.put_written (chained : Chained store sources value links use) (member : link ∈ links) :
    ∃ stored, store.kind? link.put = some (.write link.place stored) := by
  induction chained with
  | value => cases member
  | link _ written _ _ _ _ continues =>
    rcases List.mem_cons.mp member with rfl | member
    · exact ⟨_, written⟩
    · exact continues member

theorem Chained.held_ne (found : store.kind? link.held = some (.dupStore inner))
    (chained : Chained store sources value earlier inner) (covered : ∀ link ∈ earlier, link.held ∈ sources)
    {other : Link} (member : other ∈ earlier) : other.held ≠ link.held := by
  intro same
  obtain ⟨rest, below, located, onward, shorter, subset⟩ := chained.at_mem member
  rw [same] at located
  cases found.symm.trans located
  have length := chained.length_unique onward fun link among =>
    covered link ((List.mem_append.mp among).elim id fun late => subset late)
  exact Nat.ne_of_gt shorter length

theorem Chained.loads_held (found : store.kind? held = some (.dupStore inner))
    (chained : Chained store sources value earlier inner) (among : source ∈ sources)
    (other : ∀ link ∈ earlier, link.held ≠ source) : store.loads source held = [] := by
  refine loads_eq_nil found nofun fun child member => ?_
  obtain rfl := List.mem_singleton.mp member
  rcases chained.use_cases with ⟨link, inside, load⟩ | avoids
  · exact .inl ⟨link.held, other link inside, load⟩
  · exact .inr (avoids.mono fun _ same => same ▸ among)

theorem Chained.loads_code (chained : Chained store sources value links use) (among : source ∈ sources)
    (other : ∀ link ∈ links, link.held ≠ source) : ∀ statement ∈ code links, store.loads source statement = [] := by
  induction chained with
  | value => nofun
  | @link link earlier inner stored use found written target quiet _ chained continues =>
    rw [List.forall_mem_cons] at other
    simp only [code, List.forall_mem_append, List.forall_mem_cons]
    refine ⟨continues other.2, chained.loads_held found among other.2, loads_eq_nil written nofun ?_, nofun⟩
    rw [show (Kind.write link.place stored).children = link.place.operands ++ [stored] from List.append_nil _,
      List.forall_mem_append, List.forall_mem_singleton]
    exact ⟨fun operand member => .inr ((quiet operand member).mono fun _ same => same ▸ among), .inl ⟨_, other.1, target⟩⟩

theorem Chained.retains (chained : Chained store sources value links use) (retains : Retains [held] store after)
    (among : held ∈ sources) (other : ∀ link ∈ links, link.held ≠ held) : Chained after sources value links use := by
  have avoids {root : NodeId} (quiet : store.Avoids (· ∈ sources) root) : after.Avoids (· ∈ sources) root :=
    retains.avoids (fun source same => List.mem_singleton.mp same ▸ among) quiet
  have load {id named : NodeId} (found : store.kind? id = some (.dupLoad named)) (apart : named ≠ held) :
      after.kind? id = some (.dupLoad named) :=
    retains.kind? found fun source same loads => apart ((Kind.dupLoad.inj loads).trans (List.mem_singleton.mp same))
  induction chained with
  | value quiet => exact .value (avoids quiet)
  | link found written target quiet repeats _ continues =>
    rw [List.forall_mem_cons] at other
    exact .link (retains.kind? found nofun) (retains.kind? written nofun) (load target other.1)
      (fun operand member => avoids (quiet operand member)) (load repeats other.1) (continues other.2)

end Chain

/-! ## Folding one link -/

section Fold

variable {store : Store} {held put inner stored use last : NodeId} {place : Place} {before : List NodeId}

theorem sameLine_retains {one other : NodeId} {kind otherKind : Kind} {after : Store} {sources : List NodeId}
    (retains : Retains sources store after) (found : store.kind? one = some kind) (noLoad : ∀ source, kind ≠ .dupLoad source)
    (foundOther : store.kind? other = some otherKind) (noLoadOther : ∀ source, otherKind ≠ .dupLoad source) :
    sameLine after one other = sameLine store one other := by
  rw [sameLine, sameLine, retains.line? found noLoad, retains.line? foundOther noLoadOther]

theorem step_of_put (written : store.kind? put = some (.write place stored)) {after : List NodeId} :
    step store ⟨before, put, after⟩ = (store, ⟨before, put :: after⟩) := by
  simp [step, written, Spot.keep]

def folded (store : Store) (put use inner : NodeId) (place : Place) : Store :=
  (store.allocate put (.read place)).2.replace use (.assign .plain store.size inner)

theorem step_of_held (found : store.kind? held = some (.dupStore inner)) (written : store.kind? put = some (.write place stored))
    (target : store.kind? stored = some (.dupLoad held))
    (unused : ∀ statement ∈ before ++ [held], store.loads held statement = []) (used : store.loads held last = [use])
    (line : sameLine store put last = true) :
    step store ⟨before.reverse, held, [put, last]⟩ = (folded store put use inner place, ⟨before.reverse, [last]⟩) := by
  have early : store.dupLoads held (before ++ [held]) = [] := by
    rw [← List.map_eq_nil_iff, map_snd_dupLoads, List.flatMap_eq_nil_iff]
    exact unused
  have late : store.dupLoads held [last] = [(last, use)] := by
    rw [dupLoads, List.flatMap_singleton]
    exact congrArg (List.map (Prod.mk last)) used
  have matched : match? store ⟨before.reverse, held, [put, last]⟩ put [last] = some (place, last, use) := by
    simp [match?, written, isDupLoadOf_iff.mpr target, early, late]
  simp [step, found, fold, matched, line, folded]

theorem folded_retains (repeats : store.kind? use = some (.dupLoad held)) :
    Retains [held] store (folded store put use inner place) := by
  intro id node located noLoad
  have apart : id ≠ use := by
    rintro rfl
    have same := (kind?_of_node? located).symm.trans repeats
    exact noLoad held (List.mem_singleton_self held) (Option.some_inj.mp same)
  rw [folded, node?_replace, if_neg apart, node?_allocate_of_lt (lt_size_of_node? located), located]

theorem folded_use (repeats : store.kind? use = some (.dupLoad held)) :
    (folded store put use inner place).kind? use = some (.assign .plain store.size inner) :=
  kind?_replace_self (Nat.lt_of_lt_of_le (lt_size_of_kind? repeats) size_le_allocate)

theorem folded_target (written : store.kind? put = some (.write place stored))
    (repeats : store.kind? use = some (.dupLoad held)) :
    (folded store put use inner place).kind? store.size = some (.read place) := by
  rw [folded, kind?_replace_of_ne (Nat.ne_of_gt (lt_size_of_kind? repeats))]
  exact kind?_allocate_self (lt_size_of_kind? written)

theorem size_lt_folded (written : store.kind? put = some (.write place stored)) :
    store.size < (folded store put use inner place).size := by
  rw [folded, size_replace]
  exact size_lt_allocate (lt_size_of_kind? written)

end Fold

/-! ## Folding a chain -/

section Run

variable {store : Store} {sources : List NodeId} {value use last : NodeId} {place : Place} {links : List Link} {depth : Nat}

theorem sameLine_of_one {one other : NodeId} {line : UInt32} (first : store.line? one = none ∨ store.line? one = some line)
    (second : store.line? other = none ∨ store.line? other = some line) : sameLine store one other = true := by
  rcases first with first | first <;> rcases second with second | second <;> simp [sameLine, first, second]

theorem length_code (links : List Link) : (code links).length = 2 * links.length := by
  induction links with
  | nil => rfl
  | cons link earlier continues => simp [code, continues, Nat.mul_succ]

theorem Chained.passes (chained : Chained store sources value links use) (covered : ∀ link ∈ links, link.held ∈ sources)
    (spine : Spine store sources (depth + 1) last use)
    (deep : ∀ held, store.kind? use = some (.dupLoad held) → depth + 1 < store.size)
    (lines : ∀ link ∈ links, sameLine store link.put last = true) :
    ∃ result, Passes (m := Id) (fun store spot => pure (step store spot)) [] (code links) store [last] result [last] ∧
      Assigned result value links use ∧ Retains (links.map Link.held) store result := by
  induction links generalizing store use depth with
  | nil =>
    cases chained with
    | value => exact ⟨store, .nil, .value, .refl store⟩
  | cons link earlier continues =>
    cases chained with
    | @link _ _ inner stored _ found written target quiet repeats chained =>
      obtain ⟨among, covered⟩ := List.forall_mem_cons.mp covered
      obtain ⟨line, lines⟩ := List.forall_mem_cons.mp lines
      have apart {other : Link} (member : other ∈ earlier) : other.held ≠ link.held := chained.held_ne found covered member
      -- The link is folded: nothing before it repeats its value, and the last statement does so once.
      have unused : ∀ statement ∈ code earlier ++ [link.held], store.loads link.held statement = [] := by
        rw [List.forall_mem_append, List.forall_mem_singleton]
        exact ⟨chained.loads_code among fun _ => apart, chained.loads_held found among fun _ => apart⟩
      have stepped := step_of_held found written target unused (spine.loads repeats among (deep _ repeats)) line
      have passes : Passes (m := Id) (fun store spot => pure (step store spot)) (code earlier) [link.held, link.put] store
          [last] (folded store link.put use inner link.place) [last] :=
        .cons (.single (congrArg pure (step_of_put written))) (congrArg pure stepped)
      -- The rest of the chain is as it was, and its end is one step further from the last statement.
      have retains : Retains [link.held] store (folded store link.put use inner link.place) := folded_retains repeats
      have longer : Spine (folded store link.put use inner link.place) sources (depth + 1 + 1) last inner := by
        refine spine.extend retains among (folded_use repeats) nofun
          (show (Kind.assign .plain store.size inner).children = [store.size] ++ [inner] from rfl) ?_
        rw [List.forall_mem_singleton]
        refine .of_children (folded_target written repeats) nofun fun child member => ?_
        rw [show (Kind.read link.place).children = link.place.operands from List.append_nil _] at member
        exact retains.avoids (fun source same => List.mem_singleton.mp same ▸ among) (quiet child member)
      have linesKept : ∀ other ∈ earlier, sameLine (folded store link.put use inner link.place) other.put last = true := by
        intro other member
        obtain ⟨_, put⟩ := chained.put_written member
        cases spine with
        | down foundLast noLoad _ _ _ =>
          rw [sameLine_retains retains put nofun foundLast noLoad]
          exact lines other member
      obtain ⟨result, passesEarlier, assigned, retainsEarlier⟩ := continues (chained.retains retains among fun _ => apart)
        covered longer (fun _ _ => Nat.lt_of_le_of_lt (deep _ repeats) (size_lt_folded written)) linesKept
      exact ⟨result, passes.append passesEarlier, .link (retainsEarlier.kind? (folded_use repeats) nofun)
        (retainsEarlier.kind? (folded_target written repeats) nofun) assigned, retains.trans retainsEarlier⟩

/-- Chains of assignments of any length are folded into their last statement: two statements go for each link, and the value of
the last one is an assignment to the place of each link in turn. -/
theorem recover_chain (chained : Chained store (links.map Link.held) value links use)
    (written : store.kind? last = some (.write place use))
    (quiet : ∀ operand ∈ place.operands, store.Avoids (· ∈ links.map Link.held) operand)
    (lines : ∃ line, ∀ statement ∈ last :: links.map Link.put,
      store.line? statement = none ∨ store.line? statement = some line) :
    (code links ++ [last]).length = 2 * links.length + 1 ∧
      ∃ result, recover ⟨store, code links ++ [last]⟩ = ⟨result, [last]⟩ ∧ result.kind? last = some (.write place use) ∧
        Assigned result value links use ∧ Retains (links.map Link.held) store result := by
  refine ⟨by rw [List.length_append, length_code, List.length_singleton], ?_⟩
  have spine : Spine store (links.map Link.held) (0 + 1) last use := .down written nofun (List.append_nil _) quiet (.here use)
  have deep (held : NodeId) (load : store.kind? use = some (.dupLoad held)) : 0 + 1 < store.size := by
    -- A statement and its repeat are two nodes.
    refine Nat.lt_of_not_le fun small => ?_
    have first {id : NodeId} {kind : Kind} (found : store.kind? id = some kind) : id = 0 :=
      Nat.lt_one_iff.mp (Nat.lt_of_lt_of_le (lt_size_of_kind? found) small)
    cases (first written ▸ written).symm.trans (first load ▸ load)
  obtain ⟨line, lines⟩ := lines
  obtain ⟨lineLast, lines⟩ := List.forall_mem_cons.mp lines
  obtain ⟨result, passes, assigned, retains⟩ := chained.passes (fun link member => List.mem_map_of_mem member) spine deep
    fun link member => sameLine_of_one (lines link.put (List.mem_map_of_mem member)) lineLast
  have kept : Passes (m := Id) (fun store spot => pure (step store spot)) (code links) [last] store [] store [last] :=
    .single (congrArg pure (step_of_put written))
  exact ⟨result, (kept.append passes).sweep, retains.kind? written nofun, assigned, retains⟩

end Run

/-- `a = b.f = c[0] = 5`, where the write to `b.f` has no line. -/
def threefold : Store :=
  ⟨#[⟨0, some 8, .literal (.int 5)⟩, ⟨1, some 8, .dupStore 0⟩,
    ⟨2, some 8, .read (.slot .reference 3)⟩, ⟨3, some 8, .literal (.int 0)⟩, ⟨4, some 8, .dupLoad 1⟩,
    ⟨5, some 8, .write (.element .int 2 3) 4⟩,
    ⟨6, some 8, .dupLoad 1⟩, ⟨7, some 8, .dupStore 6⟩,
    ⟨8, some 8, .read (.slot .reference 2)⟩, ⟨9, some 8, .dupLoad 7⟩, ⟨10, none, .write (.field 4 8) 9⟩,
    ⟨11, some 8, .dupLoad 7⟩, ⟨12, some 8, .write (.slot .int 1) 11⟩]⟩

def threefoldLinks : List Link := [⟨7, 10, .field 4 8⟩, ⟨1, 5, .element .int 2 3⟩]

theorem threefold_chained : Chained threefold (threefoldLinks.map Link.held) 0 threefoldLinks 11 := by
  refine .link rfl rfl rfl ?_ rfl (.link rfl rfl rfl ?_ rfl (.value (.of_children rfl nofun nofun)))
  · rintro operand (_ | ⟨_, ⟨⟩⟩)
    exact .of_children rfl nofun nofun
  · rintro operand (_ | ⟨_, _ | ⟨_, ⟨⟩⟩⟩) <;> exact .of_children rfl nofun nofun

theorem threefold_recovered : Chained threefold (threefoldLinks.map Link.held) 0 threefoldLinks 11 ∧
    ∃ result, recover ⟨threefold, [1, 5, 7, 10, 12]⟩ = ⟨result, [12]⟩ ∧
      result.kind? 12 = some (.write (.slot .int 1) 11) ∧ Assigned result 0 threefoldLinks 11 := by
  have written : threefold.kind? 12 = some (.write (.slot .int 1) 11) := rfl
  obtain ⟨_, result, recovered, kept, assigned, _⟩ := recover_chain threefold_chained written nofun ⟨8, by decide⟩
  exact ⟨threefold_chained, result, recovered, kept, assigned⟩

end Assignment

end ClassLift
