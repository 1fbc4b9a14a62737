import Mathlib.Data.List.Basic
import ModelGraph.Hook
import ModelGraph.Proofs.OrderedMap

/-!
# How hooks run

A resolver with hooks around it goes through a plan: the pre hooks in the order in which they are
named, the resolver itself, and the post hooks, each of which is given the result of the resolver. A
plan is carried out step by step, each step in the world that the one before it left, and the first
step that fails is the last one that runs.

The world is any type, so it may hold a log of everything that runs; a plan that is carried out says
what such a log holds.

## Main definitions

- `HookStep`, `HookNames.plan` — the steps of a resolution
- `HookStep.Performs` — what one step does
- `CarriedOut` — what a plan does, up to the first failure

## Main statements

- `CarriedOut.isPrefix` — the steps that ran are the first ones of the plan
- `HookRegistry.compose_carriesOut` — which names are refused, and what a composed resolver does
-/

namespace ModelGraph

variable {ω α β : Type}

/-- What an action gives in a world, and the world that it leaves. -/
def Effect.runIn (action : Effect ω α) (world : ω) : Except String α × ω :=
  action.run.run world

/-- An action after another one runs in the world that the first one left, unless that failed. -/
theorem Effect.runIn_bind (action : Effect ω α) (next : α → Effect ω β) (world : ω) :
    (action >>= next).runIn world =
      match action.runIn world with
      | (.ok value, world) => (next value).runIn world
      | (.error e, world) => (.error e, world) := by
  change (ExceptT.bindCont next (action.runIn world).1).run (action.runIn world).2 = _
  rcases action.runIn world with ⟨_ | _, _⟩ <;> rfl

/-- A step of a resolution. -/
inductive HookStep where
  | pre (name : String)
  /-- The resolver that the hooks stand around. -/
  | inner
  /-- A post hook, with the result that it is given. -/
  | post (name : String) (result : Json)
deriving DecidableEq

/-- What a step answers when it does not fail. -/
inductive HookAnswer where
  | passed
  | resolved (result : Json)
  | decided (outcome : HookOutcome)
deriving DecidableEq

/-- The steps of a resolution whose resolver gives a result. -/
def HookNames.plan (names : HookNames) (result : Json) : List HookStep :=
  names.pre.map .pre ++ .inner :: names.post.map (.post · result)

/-- What is left of a result: the replacement of the last post hook, if that has one. -/
def HookAnswer.settle (result : Json) (answers : List HookAnswer) : Json :=
  match answers.getLast? with
  | some (.decided (.replace value)) => value
  | _ => result

/-- Only the outcome of the last post hook counts. -/
theorem HookAnswer.settle_append {before after : List HookAnswer} {result : Json}
    {outcome : HookOutcome} (h : after.getLast?.getD (.decided .keep) = .decided outcome) :
    settle result (before ++ resolved result :: after) = outcome.apply result := by
  rw [settle, List.getLast?_append_cons, List.getLast?_cons]
  cases hlast : after.getLast? with
  | none =>
    rw [hlast] at h
    cases h
    rfl
  | some last =>
    rw [hlast] at h
    obtain rfl : last = decided outcome := h
    cases outcome <;> rfl

section

variable (registry : HookRegistry ω) (inner : Resolver ω) (params : ResolveParams)

/-- One step: what it answers in a world, or how it fails, and the world that it leaves. -/
inductive HookStep.Performs : HookStep → ω → Except String HookAnswer × ω → Prop
  | pre {name : String} {hook : PreHook ω} (registered : registry.pre.get? name = some hook)
      (world : ω) :
      Performs (.pre name) world
        (((hook params).runIn world).map (·.map fun _ => .passed) id)
  | inner (world : ω) :
      Performs .inner world (((inner params).runIn world).map (·.map .resolved) id)
  | post {name : String} {hook : PostHook ω} (registered : registry.post.get? name = some hook)
      (result : Json) (world : ω) :
      Performs (.post name result) world
        (((hook result params).runIn world).map (·.map .decided) id)

/-- Steps are carried out in order, each in the world that the one before it left: those that were
passed with their answers, and the one that failed, if there is one, with its error. No step runs
after that. -/
inductive CarriedOut : List HookStep → ω → List (HookStep × HookAnswer) →
    Option (HookStep × String) → ω → Prop
  | nil (world : ω) : CarriedOut [] world [] none world
  | fails {step : HookStep} {world last : ω} {e : String}
      (failed : step.Performs registry inner params world (.error e, last)) (rest : List HookStep) :
      CarriedOut (step :: rest) world [] (some (step, e)) last
  | passes {step : HookStep} {answer : HookAnswer} {world next last : ω} {rest : List HookStep}
      {done : List (HookStep × HookAnswer)} {failure : Option (HookStep × String)}
      (passed : step.Performs registry inner params world (.ok answer, next))
      (carried : CarriedOut rest next done failure last) :
      CarriedOut (step :: rest) world ((step, answer) :: done) failure last

end

namespace CarriedOut

variable {registry : HookRegistry ω} {inner : Resolver ω} {params : ResolveParams}
  {first rest : List HookStep} {world next last : ω} {done more : List (HookStep × HookAnswer)}
  {failure : Option (HookStep × String)}

/-- Steps after others that were all passed are carried out next. -/
theorem append (h : CarriedOut registry inner params first world done none next)
    (hrest : CarriedOut registry inner params rest next more failure last) :
    CarriedOut registry inner params (first ++ rest) world (done ++ more) failure last := by
  generalize hnone : (none : Option (HookStep × String)) = ending at h
  induction h with
  | nil => exact hrest
  | fails => cases hnone
  | passes passed _ ih => exact .passes passed (ih hrest hnone)

/-- Steps after one that failed do not run. -/
theorem append_of_failure {failed : HookStep × String}
    (h : CarriedOut registry inner params first world done (some failed) last)
    (rest : List HookStep) :
    CarriedOut registry inner params (first ++ rest) world done (some failed) last := by
  generalize hsome : some failed = ending at h ⊢
  induction h with
  | nil => cases hsome
  | fails hfailed others => exact .fails hfailed (others ++ rest)
  | passes passed _ ih => exact .passes passed (ih hsome)

/-- The steps that ran are the first ones of the plan, with the one that failed as the last, and all
of them when none failed. -/
theorem isPrefix (h : CarriedOut registry inner params first world done failure last) :
    done.map Prod.fst ++ (failure.map Prod.fst).toList <+: first ∧
      (failure = none → done.map Prod.fst = first) := by
  induction h with
  | nil => exact ⟨List.prefix_rfl, fun _ => rfl⟩
  | fails _ rest => exact ⟨List.prefix_append [_] rest, nofun⟩
  | @passes step _ _ _ _ _ _ _ _ _ ih =>
    exact ⟨List.prefix_cons_inj step |>.2 ih.1, fun hnone => congrArg (step :: ·) (ih.2 hnone)⟩

end CarriedOut

/-! ### The names of hooks -/

/-- Names are looked up one by one: the first one that is not there is the failure. -/
theorem mapM_lookUp {γ ε : Type} {lookUp : String → Except ε γ} {find : String → Option γ}
    {unknown : String → ε}
    (h : ∀ name, lookUp name = (find name).elim (.error (unknown name)) .ok)
    (names : List String) :
    names.mapM lookUp =
      match names.find? fun name => (find name).isNone with
      | some name => .error (unknown name)
      | none => .ok (names.filterMap find) := by
  induction names with
  | nil => rfl
  | cons name rest ih =>
    rw [List.mapM_cons, ih, h, List.find?_cons, List.filterMap_cons]
    cases find name with
    | none => rfl
    | some found => cases rest.find? fun name => (find name).isNone <;> rfl

/-! ### The phases of a resolution -/

/-- How a run ends: with the failure, or else with a value. -/
def endingOf (failure : Option (HookStep × String)) (value : α) : Except String α :=
  match failure with
  | some (_, e) => .error e
  | none => .ok value

section Phases

variable (registry : HookRegistry ω) (inner : Resolver ω) (params : ResolveParams)

/-- The pre hooks of registered names run in order. -/
theorem carriesOut_pre (names : List String)
    (h : ∀ name ∈ names, (registry.pre.get? name).isSome) (world : ω) :
    ∃ done failure last,
      CarriedOut registry inner params (names.map .pre) world done failure last ∧
      ((names.filterMap registry.pre.get?).forM fun hook => hook params).runIn world =
        (endingOf failure (), last) ∧
      ∀ value, (HookStep.inner, HookAnswer.resolved value) ∉ done := by
  induction names generalizing world with
  | nil => exact ⟨[], none, world, .nil world, rfl, fun _ => List.not_mem_nil⟩
  | cons name rest ih =>
    obtain ⟨hname, hrest⟩ := List.forall_mem_cons.1 h
    obtain ⟨hook, hhook⟩ := Option.isSome_iff_exists.1 hname
    have hperforms : HookStep.Performs registry inner params (.pre name) world _ :=
      .pre hhook world
    rw [List.filterMap_cons_some hhook, List.forM, Effect.runIn_bind]
    rcases hrun : (hook params).runIn world with ⟨e | _, next⟩
    · rw [hrun] at hperforms
      exact ⟨[], _, next, .fails hperforms _, rfl, fun _ => List.not_mem_nil⟩
    · rw [hrun] at hperforms
      obtain ⟨done, failure, last, hcarried, hforM, hinner⟩ := ih hrest next
      exact ⟨_, failure, last, .passes hperforms hcarried, hforM, fun value hmem => by
        simp [hinner value] at hmem⟩

/-- The post hooks of registered names run in order, each on the same result. The outcome is that of
the last one. -/
theorem carriesOut_post (result : Json) (names : List String)
    (h : ∀ name ∈ names, (registry.post.get? name).isSome) (start : HookOutcome) (world : ω) :
    ∃ done failure last outcome,
      CarriedOut registry inner params (names.map (.post · result)) world done failure last ∧
      (Resolver.runPost result params (names.filterMap registry.post.get?) start).runIn world =
        (endingOf failure outcome, last) ∧
      ((done.map Prod.snd).getLast?.getD (.decided start) = .decided outcome) ∧
      ∀ value, (HookStep.inner, HookAnswer.resolved value) ∉ done := by
  induction names generalizing start world with
  | nil => exact ⟨[], none, world, start, .nil world, rfl, rfl, fun _ => List.not_mem_nil⟩
  | cons name rest ih =>
    obtain ⟨hname, hrest⟩ := List.forall_mem_cons.1 h
    obtain ⟨hook, hhook⟩ := Option.isSome_iff_exists.1 hname
    have hperforms : HookStep.Performs registry inner params (.post name result) world _ :=
      .post hhook result world
    rw [List.filterMap_cons_some hhook, Resolver.runPost, Effect.runIn_bind]
    rcases hrun : (hook result params).runIn world with ⟨e | outcome, next⟩
    · rw [hrun] at hperforms
      exact ⟨[], _, next, start, .fails hperforms _, rfl, rfl, fun _ => List.not_mem_nil⟩
    · rw [hrun] at hperforms
      obtain ⟨done, failure, last, final, hcarried, hpost, hlast, hinner⟩ := ih hrest outcome next
      refine ⟨_, failure, last, final, .passes hperforms hcarried, hpost, ?_, fun value hmem => by
        simp [hinner value] at hmem⟩
      rw [List.map_cons, List.getLast?_cons]
      exact hlast

/-- A resolver with the hooks of registered names around it carries out the plan of the names. -/
theorem hooked_carriesOut (names : HookNames)
    (hpre : ∀ name ∈ names.pre, (registry.pre.get? name).isSome)
    (hpost : ∀ name ∈ names.post, (registry.post.get? name).isSome) (world : ω) :
    ∃ result done failure last,
      (Resolver.hooked (names.pre.filterMap registry.pre.get?)
          (names.post.filterMap registry.post.get?) inner params).runIn world =
        (endingOf failure (HookAnswer.settle result (done.map Prod.snd)), last) ∧
      CarriedOut registry inner params (names.plan result) world done failure last ∧
      ∀ value, (HookStep.inner, HookAnswer.resolved value) ∈ done → value = result := by
  obtain ⟨before, failure, next, hbefore, hforM, hnot⟩ :=
    carriesOut_pre registry inner params names.pre hpre world
  rw [Resolver.hooked, Effect.runIn_bind, hforM]
  rcases failure with _ | failed
  · have hinner : HookStep.Performs registry inner params .inner next _ := .inner next
    dsimp only [endingOf]
    rw [Effect.runIn_bind]
    rcases hrun : (inner params).runIn next with ⟨e | result, next'⟩
    · rw [hrun] at hinner
      exact ⟨.null, _, _, next', rfl, hbefore.append (.fails hinner _), fun value hmem => by
        simp [hnot value] at hmem⟩
    · rw [hrun] at hinner
      obtain ⟨after, failure, last, outcome, hafter, hrunPost, hlast, hnot'⟩ :=
        carriesOut_post registry inner params result names.post hpost .keep next'
      refine ⟨result, _, failure, last, ?_, hbefore.append (.passes hinner hafter),
        fun value hmem => by simpa [hnot value, hnot' value] using hmem⟩
      dsimp only
      rw [Effect.runIn_bind, hrunPost]
      rcases failure with _ | failed
      · refine congrArg (fun value => (Except.ok value, last)) ?_
        rw [List.map_append, List.map_cons, HookAnswer.settle_append hlast]
      · rfl
  · exact ⟨.null, before, some failed, next, rfl, hbefore.append_of_failure _, fun value hmem =>
      absurd hmem (hnot value)⟩

end Phases

/-- Without hooks a resolver is as it was. -/
theorem Resolver.hooked_nil (inner : Resolver ω) : Resolver.hooked [] [] inner = inner := by
  funext params
  simp [Resolver.hooked, Resolver.runPost, HookOutcome.apply]

namespace HookRegistry

variable (registry : HookRegistry ω) (names : HookNames)

theorem preHooks_eq (names : List String) :
    registry.preHooks names =
      match names.find? fun name => (registry.pre.get? name).isNone with
      | some name => .error (.unknownPre name)
      | none => .ok (names.filterMap registry.pre.get?) :=
  mapM_lookUp (fun name => by cases registry.pre.get? name <;> rfl) names

theorem postHooks_eq (names : List String) :
    registry.postHooks names =
      match names.find? fun name => (registry.post.get? name).isNone with
      | some name => .error (.unknownPost name)
      | none => .ok (names.filterMap registry.post.get?) :=
  mapM_lookUp (fun name => by cases registry.post.get? name <;> rfl) names

/-- Composing fails, without a world to act on, with the first pre hook that is not registered, or
else with the first such post hook. Otherwise the composed resolver carries out the plan of the
names: the pre hooks in order, the resolver, and the post hooks in order on the resolver's result.
The first step that fails ends the run with its error, and where none fails the result is what the
last post hook makes of the resolver's result. -/
theorem compose_carriesOut (inner : Resolver ω) :
    (∀ name, (names.pre.find? fun name => (registry.pre.get? name).isNone) = some name →
      registry.compose names inner = .error (.unknownPre name)) ∧
    (∀ name, (∀ pre ∈ names.pre, (registry.pre.get? pre).isSome) →
      (names.post.find? fun name => (registry.post.get? name).isNone) = some name →
      registry.compose names inner = .error (.unknownPost name)) ∧
    ((∀ name ∈ names.pre, (registry.pre.get? name).isSome) →
      (∀ name ∈ names.post, (registry.post.get? name).isSome) →
      ∃ resolver, registry.compose names inner = .ok resolver ∧
        ∀ params world, ∃ result done failure last,
          (resolver params).runIn world =
            (endingOf failure (HookAnswer.settle result (done.map Prod.snd)), last) ∧
          CarriedOut registry inner params (names.plan result) world done failure last ∧
          ∀ value, (HookStep.inner, HookAnswer.resolved value) ∈ done → value = result) := by
  have hfind : ∀ {γ : Type} {find : String → Option γ} {names : List String},
      (∀ name ∈ names, (find name).isSome) → names.find? (fun name => (find name).isNone) = none :=
    fun h => List.find?_eq_none.2 fun name hname => by
      simp [Option.isSome_iff_ne_none.1 (h name hname)]
  refine ⟨fun name hname => ?_, fun name hpre hname => ?_, fun hpre hpost => ?_⟩
  · have hempty : ¬ names.isEmpty := fun hempty => by
      simp [HookNames.isEmpty] at hempty
      simp [hempty.1] at hname
    rw [compose, if_neg hempty, preHooks_eq, hname]
    rfl
  · have hempty : ¬ names.isEmpty := fun hempty => by
      simp [HookNames.isEmpty] at hempty
      simp [hempty.2] at hname
    rw [compose, if_neg hempty, preHooks_eq, hfind hpre, postHooks_eq, hname]
    rfl
  · have hcarries := fun params => hooked_carriesOut registry inner params names hpre hpost
    by_cases hempty : names.isEmpty
    -- The shortcut for no names is what the general chain does without hooks.
    · have hnames := hempty
      simp only [HookNames.isEmpty, Bool.and_eq_true, List.isEmpty_iff] at hnames
      simp only [hnames.1, hnames.2, List.filterMap_nil, Resolver.hooked_nil] at hcarries
      exact ⟨inner, by rw [compose, if_pos hempty], fun params world => hcarries params world⟩
    · refine ⟨_, ?_, fun params world => hcarries params world⟩
      rw [compose, if_neg hempty, preHooks_eq, hfind hpre, postHooks_eq, hfind hpost]
      rfl

/-- Hooks that write what they do to a log. -/
def loggingRegistry : HookRegistry (List String) where
  pre := .ofList [("audit", fun params => modify (· ++ ["audit " ++ params.field]))]
  post := .ofList
    [("double", fun result _ => do
      modify (· ++ ["double"])
      pure (.replace (.array [result, result]))),
     ("check", fun _ _ => do
      modify (· ++ ["check"])
      pure .keep)]

/-- Hook names of which one is repeated, and the last one does not replace the result. -/
def auditedNames : HookNames := { pre := ["audit", "audit"], post := ["double", "check"] }

/-- A resolver that writes to the log. -/
def loggingResolver : Resolver (List String) := fun _ => do
  modify (· ++ ["read"])
  pure (.string "Ada")

theorem compose_auditedNames :
    (∀ name ∈ auditedNames.pre, (loggingRegistry.pre.get? name).isSome) ∧
    (∀ name ∈ auditedNames.post, (loggingRegistry.post.get? name).isSome) ∧
    ∃ resolver, loggingRegistry.compose auditedNames loggingResolver = .ok resolver ∧
      (resolver { typeName := "Query", field := "userMany", args := .null, parent := .null }).runIn [] =
        (.ok (.string "Ada"), ["audit userMany", "audit userMany", "read", "double", "check"]) ∧
      ∀ params world, ∃ result done failure last,
        (resolver params).runIn world =
          (endingOf failure (HookAnswer.settle result (done.map Prod.snd)), last) ∧
        CarriedOut loggingRegistry loggingResolver params (auditedNames.plan result) world done
          failure last := by
  have hpre : ∀ name ∈ auditedNames.pre, (loggingRegistry.pre.get? name).isSome := by decide
  have hpost : ∀ name ∈ auditedNames.post, (loggingRegistry.post.get? name).isSome := by decide
  obtain ⟨resolver, hcompose, hcarries⟩ :=
    (compose_carriesOut loggingRegistry auditedNames loggingResolver).2.2 hpre hpost
  refine ⟨hpre, hpost, resolver, hcompose, ?_, fun params world => ?_⟩
  · obtain rfl := Except.ok.inj hcompose
    rfl
  · obtain ⟨result, done, failure, last, hrun, hcarried, -⟩ := hcarries params world
    exact ⟨result, done, failure, last, hrun, hcarried⟩

end HookRegistry

end ModelGraph
