import Mathlib.Data.List.Infix
import Mathlib.Logic.Function.Basic
import Pyxxl.Handlers.Context
import Pyxxl.Lib.Lines
import Pyxxl.Lib.Scopes

/-!
# Pyxxl.Handlers.Registered

Registration of handlers while their module is executed, and how the child process finds a handler
again: it imports the module and follows the qualified name.

* the child makes the same definitions in the same order, so an object goes by its number.
* a class statement is entered and left; its body is a scope of its own, and binds private names in
  their mangled form.
* a registration that is refused raises; the statement it stands in has then no further effect.
* `accepted` lists the registrations that were made; no code reads it.
* `registered_runs`: the child gets what was registered exactly if the definition of the function,
  and the class statements around it, are the last of their names.
-/

namespace Pyxxl

open Scopes Transition

/-- A text without `.` and `<`. -/
abbrev Ident := {t : PyStr // ∀ c ∈ t, c ≠ 46 ∧ c ≠ 60}

/-! ## Objects -/

inductive FunctionKind where
  | declared (name : Ident)
  | lambda
  /-- A function that another one defines. -/
  | nested (maker : List Ident) (name : Ident)
  deriving DecidableEq

structure FunctionObject where
  number : Nat
  /-- The class statements around it. -/
  scope : List Ident
  kind : FunctionKind
  isAsync : Bool
  deriving DecidableEq

structure ClassObject where
  number : Nat
  scope : List Ident
  name : Ident
  deriving DecidableEq

inductive PyObject where
  | moduleObject
  | cls (c : ClassObject)
  | func (f : FunctionObject)
  deriving DecidableEq

namespace PyObject

def lambdaName : PyStr := py "<lambda>"

def locals : PyStr := py "<locals>"

def names (scope : List Ident) : List PyStr := scope.map Subtype.val

/-- The parts of `__qualname__`. -/
def path : PyObject → List PyStr
  | moduleObject => []
  | cls c => names c.scope ++ [c.name.val]
  | func f =>
    match f.kind with
    | .declared name => names f.scope ++ [name.val]
    | .lambda => names f.scope ++ [lambdaName]
    | .nested maker name => names maker ++ [locals, name.val]

def qualname (o : PyObject) : PyStr := [46].intercalate o.path

/-- `__name__`. -/
def name (o : PyObject) : PyStr := o.path.getLast?.getD []

/-- `inspect.isfunction`. -/
def isFunction : PyObject → Bool
  | func _ => true
  | _ => false

/-- `asyncio.iscoroutinefunction`. -/
def isCoroutineFunction : PyObject → Bool
  | func f => f.isAsync
  | _ => false

end PyObject

/-! ## Registration -/

def HandlerRunMode.value : HandlerRunMode → PyStr
  | .async => py "async"
  | .thread => py "thread"
  | .process => py "process"

structure HandlerInfo where
  handler : PyObject
  mode : HandlerRunMode
  isAsync : Bool
  moduleName : PyStr
  qualname : PyStr

namespace HandlerInfo

/-- `_is_process_safe`. -/
def isProcessSafe (handler : PyObject) : Bool :=
  handler.isFunction && !decide (PyObject.locals <:+: handler.qualname)

/-- `__post_init__`, or the text of the `JobRegisterError`. -/
def postInit (moduleName : PyStr) (handler : PyObject) (mode : Option HandlerRunMode) :
    Except PyStr HandlerInfo :=
  let isAsync := handler.isCoroutineFunction
  let mode := mode.getD (if isAsync then .async else .thread)
  if mode = .async ∧ isAsync = false then .error (py "async mode requires an async handler.")
  else if (mode = .thread ∨ mode = .process) ∧ isAsync = true then
    .error (mode.value ++ py " mode does not support async handlers.")
  else if mode = .process ∧ isProcessSafe handler = false then
    .error (py "process mode requires a top-level importable function; " ++
      py "nested/local functions are not supported.")
  else .ok ⟨handler, mode, isAsync, moduleName, handler.qualname⟩

end HandlerInfo

/-- The keywords of `register`. -/
structure RegisterArgs where
  name : Option PyStr := none
  replace : Bool := false
  mode : Option HandlerRunMode := none

/-- `handler_name or func.__name__`. -/
def RegisterArgs.realName (r : RegisterArgs) (o : PyObject) : PyStr :=
  match r.name with
  | some (c :: n) => c :: n
  | _ => o.name

/-! ## The module -/

/-- A class statement whose body is being executed. -/
structure OpenClass where
  number : Nat
  name : Ident

structure ModuleState where
  moduleName : PyStr
  number : Nat
  /-- Innermost first. -/
  body : List OpenClass
  bindings : List (Binding PyObject PyStr)
  handlers : PyStr → Option HandlerInfo
  accepted : List (PyStr × HandlerInfo)

/-- A name in the body of a class: `__x` of `C` is `_C__x`. -/
def mangle (cls : Option Ident) (t : PyStr) : PyStr :=
  match cls with
  | none => t
  | some c =>
    if [95, 95] <+: t ∧ ¬[95, 95] <:+ t then
      match c.val.dropWhile (· = 95) with
      | [] => t
      | d => 95 :: (d ++ t)
    else t

/-- Function objects that are made in an expression. -/
inductive Made where
  | lambda
  | nested (maker : List Ident) (name : Ident) (isAsync : Bool)

inductive Expr where
  | name (head : Ident) (attrs : List Ident)
  | made (m : Made)

inductive Statement where
  /-- `def`, with the registrations among its decorators, the nearest first. -/
  | define (name : Ident) (isAsync : Bool) (decorators : List RegisterArgs)
  | assign (name : Ident) (m : Made)
  | enterClass (name : Ident)
  | leaveClass
  | register (e : Expr) (r : RegisterArgs)

namespace ModuleState

/-- A module that has just begun, and a `JobHandler`. -/
def start (moduleName : PyStr) (handlers : PyStr → Option HandlerInfo) : ModuleState where
  moduleName := moduleName
  number := 0
  body := []
  bindings := []
  handlers := handlers
  accepted := []

def scopeOf (body : List OpenClass) : List Ident := (body.map OpenClass.name).reverse

def holderOf : List OpenClass → PyObject
  | [] => .moduleObject
  | c :: body => .cls ⟨c.number, scopeOf body, c.name⟩

/-- A name as the present scope has it. -/
def key (s : ModuleState) (name : Ident) : PyStr :=
  mangle (s.body.head?.map OpenClass.name) name.val

def bind (s : ModuleState) (name : Ident) (o : PyObject) : ModuleState :=
  { s with bindings := ⟨holderOf s.body, s.key name, o⟩ :: s.bindings }

def make (s : ModuleState) : Made → FunctionObject
  | .lambda => ⟨s.number, scopeOf s.body, .lambda, false⟩
  | .nested maker name isAsync => ⟨s.number, scopeOf s.body, .nested maker name, isAsync⟩

/-- A name that is not bound in the body of a class is looked up in the module. -/
def lookup (s : ModuleState) (name : Ident) : Option PyObject :=
  (attr s.bindings (holderOf s.body) (s.key name)).or (attr s.bindings .moduleObject (s.key name))

def eval (s : ModuleState) : Expr → Option PyObject
  | .name head attrs => (s.lookup head).bind fun o => walk s.bindings o (attrs.map s.key)
  | .made m => some (.func (s.make m))

/-- `_decorate`, or the text of the `JobRegisterError`. -/
def decorate (s : ModuleState) (o : PyObject) (r : RegisterArgs) : Except PyStr ModuleState :=
  let realName := r.realName o
  if (s.handlers realName).isSome ∧ r.replace = false then
    .error (py "handler " ++ realName ++ py " already registered.")
  else
    match HandlerInfo.postInit s.moduleName o r.mode with
    | .error e => .error e
    | .ok info =>
      .ok { s with
        handlers := Function.update s.handlers realName (some info)
        accepted := s.accepted ++ [(realName, info)] }

/-- The decorators of a function, and whether none of them raised. -/
def decorateAll (s : ModuleState) (o : PyObject) : List RegisterArgs → ModuleState × Bool
  | [] => (s, true)
  | r :: rs =>
    match s.decorate o r with
    | .error _ => (s, false)
    | .ok s' => s'.decorateAll o rs

def define (s : ModuleState) (name : Ident) (isAsync : Bool) (decorators : List RegisterArgs) :
    ModuleState :=
  let o := PyObject.func ⟨s.number, scopeOf s.body, .declared name, isAsync⟩
  match { s with number := s.number + 1 }.decorateAll o decorators with
  | (s', true) => s'.bind name o
  | (s', false) => s'

def register (s : ModuleState) (e : Expr) (r : RegisterArgs) : ModuleState :=
  match s.eval e with
  | none => s
  | some o =>
    match { s with number := s.number + 1 }.decorate o r with
    | .error _ => s
    | .ok s' => s'

def step (s : ModuleState) : Statement → Option ModuleState
  | .define name isAsync decorators => some (s.define name isAsync decorators)
  | .assign name m => some ({ s with number := s.number + 1 }.bind name (.func (s.make m)))
  | .enterClass name =>
    some { s with number := s.number + 1, body := ⟨s.number, name⟩ :: s.body }
  | .leaveClass =>
    match s.body with
    | [] => none
    | c :: body => some ({ s with body := body }.bind c.name (holderOf (c :: body)))
  | .register e r => some (s.register e r)

end ModuleState

/-! ## The child -/

inductive ResolveError where
  | runtimeError
  | moduleNotFoundError
  /-- Or an attribute every object of that type has. -/
  | attributeError
  deriving DecidableEq, Repr

/-- `resolve_process_handler`, in a process that has imported the module. -/
def resolveProcessHandler (s : ModuleState) (moduleName qualname : PyStr) :
    Except ResolveError PyObject :=
  if PyObject.locals <:+: qualname then .error .runtimeError
  else if moduleName = s.moduleName then
    match walk s.bindings .moduleObject (qualname.splitOn 46) with
    | some o => .ok o
    | none => .error .attributeError
  else .error .moduleNotFoundError

namespace ModuleState

/-- What was registered for process mode is what the child gets. -/
def RunsRegistered (s : ModuleState) : Prop :=
  ∀ r ∈ s.accepted, r.2.mode = .process →
    resolveProcessHandler s r.2.moduleName r.2.qualname = .ok r.2.handler

end ModuleState

/-! ## Qualified names -/

namespace PyObject

theorem dot_not_mem (o : PyObject) : ∀ p ∈ o.path, 46 ∉ p := by
  have hident : ∀ i : Ident, 46 ∉ i.val := fun i h => (i.property 46 h).1 rfl
  have hnames : ∀ scope : List Ident, ∀ p ∈ names scope, 46 ∉ p := by
    intro scope p hp
    obtain ⟨i, -, rfl⟩ := List.mem_map.mp hp
    exact hident i
  have happend : ∀ (scope : List Ident) (t : PyStr), 46 ∉ t → ∀ p ∈ names scope ++ [t], 46 ∉ p := by
    intro scope t ht p hp
    rcases List.mem_append.mp hp with hp | hp
    · exact hnames scope p hp
    · rw [List.mem_singleton.mp hp]
      exact ht
  cases o with
  | moduleObject => exact nofun
  | cls c => exact happend c.scope _ (hident c.name)
  | func f =>
    obtain ⟨number, scope, kind, isAsync⟩ := f
    cases kind with
    | declared name => exact happend scope _ (hident name)
    | lambda => exact happend scope _ (by decide)
    | nested maker name =>
      intro p hp
      rcases List.mem_append.mp hp with hp | hp
      · exact hnames maker p hp
      · rcases List.mem_cons.mp hp with rfl | hp
        · decide
        · rw [List.mem_singleton.mp hp]
          exact hident name

theorem path_func_ne_nil (f : FunctionObject) : (func f).path ≠ [] := by
  obtain ⟨number, scope, kind, isAsync⟩ := f
  cases kind with
  | declared name => exact List.append_ne_nil_of_right_ne_nil _ nofun
  | lambda => exact List.append_ne_nil_of_right_ne_nil _ nofun
  | nested maker name => exact List.append_ne_nil_of_right_ne_nil _ nofun

theorem splitOn_qualname (f : FunctionObject) :
    (func f).qualname.splitOn 46 = (func f).path :=
  List.splitOn_intercalate 46 (dot_not_mem _) (path_func_ne_nil f)

/-- The object is no function that another one defines. -/
def Plain : PyObject → Prop
  | func f => ∀ maker name, f.kind ≠ .nested maker name
  | _ => True

theorem plain_of_no_locals {o : PyObject} (h : ¬locals <:+: o.qualname) : Plain o := by
  cases o with
  | moduleObject => exact trivial
  | cls c => exact trivial
  | func f =>
    intro maker name hk
    refine h (Lines.part_intercalate 46 ?_)
    rw [path, hk]
    exact List.mem_append_right _ (List.mem_cons_self ..)

end PyObject

open PyObject ModuleState

theorem HandlerInfo.postInit_ok {m : PyStr} {o : PyObject} {mode : Option HandlerRunMode}
    {info : HandlerInfo} (h : postInit m o mode = .ok info) :
    info.handler = o ∧ info.moduleName = m ∧ info.qualname = o.qualname ∧
      (info.mode = .process → (∃ f, o = .func f) ∧ ¬locals <:+: o.qualname) := by
  unfold postInit at h
  dsimp only at h
  generalize mode.getD (if o.isCoroutineFunction = true then .async else .thread) = md at h
  split at h
  · cases h
  · split at h
    · cases h
    · split at h
      · cases h
      · rename_i hsafe
        cases h
        rw [not_and, Bool.not_eq_false, isProcessSafe, Bool.and_eq_true] at hsafe
        refine ⟨rfl, rfl, rfl, fun hp => ?_⟩
        obtain ⟨hf, hl⟩ := hsafe hp
        constructor
        · cases o with
          | func f => exact ⟨f, rfl⟩
          | moduleObject => cases hf
          | cls c => cases hf
        · rw [Bool.not_eq_true', decide_eq_false_iff_not] at hl
          exact hl

/-! ## What the module binds -/

namespace ModuleState

variable {s s' : ModuleState} {o : PyObject} {st : Statement}

structure Inv (s : ModuleState) : Prop where
  bindings : ∀ b ∈ s.bindings, Plain b.holder ∧ 60 ∉ b.key ∧
    (Plain b.value → ∃ n, b.value.path = b.holder.path ++ [n])
  accepted : ∀ r ∈ s.accepted, ∃ mode, HandlerInfo.postInit s.moduleName r.2.handler mode = .ok r.2

theorem inv_start (moduleName : PyStr) (handlers : PyStr → Option HandlerInfo) :
    Inv (start moduleName handlers) where
  bindings _ h := by cases h
  accepted _ h := by cases h

theorem path_holderOf (body : List OpenClass) : (holderOf body).path = names (scopeOf body) := by
  cases body with
  | nil => rfl
  | cons c body =>
    show names (scopeOf body) ++ [c.name.val] = _
    unfold scopeOf names
    rw [List.map_cons, List.reverse_cons, List.map_append]
    rfl

theorem plain_holderOf (body : List OpenClass) : Plain (holderOf body) := by
  cases body with
  | nil => exact trivial
  | cons c body => exact trivial

theorem angle_not_mem_mangle {cls : Option Ident} (name : Ident) : 60 ∉ mangle cls name.val := by
  have hident : ∀ i : Ident, 60 ∉ i.val := fun i h => (i.property 60 h).2 rfl
  cases cls with
  | none => exact hident name
  | some c =>
    unfold mangle
    dsimp only
    split
    · split
      · exact hident name
      · intro hm
        rcases List.mem_cons.mp hm with hm | hm
        · cases hm
        · rcases List.mem_append.mp hm with hm | hm
          · exact hident c ((List.dropWhile_sublist _).subset hm)
          · exact hident name hm
    · exact hident name

theorem Inv.bind (hv : Inv s) {name : Ident}
    (ho : Plain o → ∃ n, o.path = names (scopeOf s.body) ++ [n]) : Inv (s.bind name o) where
  bindings b hb := by
    rcases List.mem_cons.mp hb with rfl | hb
    · exact ⟨plain_holderOf _, angle_not_mem_mangle name, path_holderOf s.body ▸ ho⟩
    · exact hv.bindings b hb
  accepted := hv.accepted

theorem Inv.frame (hv : Inv s) (s' : ModuleState) (hm : s'.moduleName = s.moduleName)
    (hb : s'.bindings = s.bindings) (ha : s'.accepted = s.accepted) : Inv s' where
  bindings := hb ▸ hv.bindings
  accepted := by rw [ha, hm]; exact hv.accepted

theorem decorate_ok {r : RegisterArgs} (h : s.decorate o r = .ok s') :
    ∃ realName info, HandlerInfo.postInit s.moduleName o r.mode = .ok info ∧ s' = { s with
      handlers := Function.update s.handlers realName (some info)
      accepted := s.accepted ++ [(realName, info)] } := by
  unfold decorate at h
  dsimp only at h
  split at h
  · cases h
  · split at h
    · cases h
    · rename_i info hinfo
      cases h
      exact ⟨_, info, hinfo, rfl⟩

theorem Inv.decorate (hv : Inv s) {r : RegisterArgs} (h : s.decorate o r = .ok s') : Inv s' := by
  obtain ⟨realName, info, hinfo, rfl⟩ := decorate_ok h
  refine ⟨hv.bindings, fun r' hr => ?_⟩
  rcases List.mem_append.mp hr with hr | hr
  · exact hv.accepted r' hr
  · rw [List.mem_singleton.mp hr]
    exact ⟨r.mode, by rw [(HandlerInfo.postInit_ok hinfo).1]; exact hinfo⟩

theorem Inv.decorateAll {rs : List RegisterArgs} (hv : Inv s) : Inv (s.decorateAll o rs).1 := by
  induction rs generalizing s with
  | nil => exact hv
  | cons r rs ih =>
    unfold ModuleState.decorateAll
    split
    · exact hv
    · rename_i s' hs'
      exact ih (hv.decorate hs')

/-- Decorators leave the scope as it is. -/
theorem body_decorateAll {rs : List RegisterArgs} : (s.decorateAll o rs).1.body = s.body := by
  induction rs generalizing s with
  | nil => rfl
  | cons r rs ih =>
    unfold ModuleState.decorateAll
    split
    · rfl
    · rename_i s' hs'
      obtain ⟨-, -, -, rfl⟩ := decorate_ok hs'
      exact ih

theorem path_make (s : ModuleState) (m : Made) (h : Plain (.func (s.make m))) :
    ∃ n, (PyObject.func (s.make m)).path = names (scopeOf s.body) ++ [n] := by
  cases m with
  | lambda => exact ⟨lambdaName, rfl⟩
  | nested maker name isAsync => exact absurd rfl (h maker name)

theorem Inv.define (hv : Inv s) (name : Ident) (isAsync : Bool) (decorators : List RegisterArgs) :
    Inv (s.define name isAsync decorators) := by
  let o := PyObject.func ⟨s.number, scopeOf s.body, .declared name, isAsync⟩
  let s₀ : ModuleState := { s with number := s.number + 1 }
  have hall : Inv (s₀.decorateAll o decorators).1 :=
    (hv.frame s₀ rfl rfl rfl).decorateAll
  have hbody : (s₀.decorateAll o decorators).1.body = s.body := body_decorateAll
  unfold ModuleState.define
  dsimp only
  split
  · rename_i s' hs'
    rw [hs'] at hall hbody
    refine hall.bind fun _ => ⟨name.val, ?_⟩
    rw [hbody]
    rfl
  · rename_i s' hs'
    rw [hs'] at hall
    exact hall

theorem Inv.register (hv : Inv s) (e : Expr) (r : RegisterArgs) : Inv (s.register e r) := by
  unfold ModuleState.register
  split
  · exact hv
  · split
    · exact hv
    · rename_i s' hs'
      exact (hv.frame { s with number := s.number + 1 } rfl rfl rfl).decorate hs'

theorem Inv.step (hv : Inv s) (h : step s st = some s') : Inv s' := by
  cases st with
  | define name isAsync decorators =>
    cases h
    exact hv.define name isAsync decorators
  | assign name m =>
    cases h
    exact (hv.frame { s with number := s.number + 1 } rfl rfl rfl).bind (path_make s m)
  | enterClass name =>
    cases h
    exact hv.frame _ rfl rfl rfl
  | leaveClass =>
    cases hb : s.body with
    | nil =>
      rw [ModuleState.step, hb] at h
      cases h
    | cons c body =>
      rw [ModuleState.step, hb] at h
      cases h
      exact (hv.frame { s with body := body } rfl rfl rfl).bind fun _ =>
        ⟨c.name.val, rfl⟩
  | register e r =>
    cases h
    exact hv.register e r

theorem inv_of_steps {moduleName : PyStr} {handlers : PyStr → Option HandlerInfo}
    (hs : Steps step Any (start moduleName handlers) s) : Inv s :=
  hs.invariant (fun _ _ _ hv _ h => hv.step h) (inv_start moduleName handlers)

/-! ## What the child finds -/

theorem resolve_eq {f : FunctionObject} (hl : ¬locals <:+: (func f).qualname) :
    resolveProcessHandler s s.moduleName (func f).qualname =
      match walk s.bindings .moduleObject (func f).path with
      | some o => .ok o
      | none => .error .attributeError := by
  rw [resolveProcessHandler, if_neg hl, if_pos rfl, splitOn_qualname]

/-- The child gets the function exactly if no later statement of the same body has bound its name,
which is the one it was defined with, and so for the class statements around it. -/
theorem Inv.resolves (hv : Inv s) {f : FunctionObject} (hl : ¬locals <:+: (func f).qualname) :
    resolveProcessHandler s s.moduleName (func f).qualname = .ok (func f) ↔
      Stays s.bindings path .moduleObject (func f) := by
  rw [resolve_eq hl, ← walk_qual_iff Plain rfl (fun b hb => (hv.bindings b hb).1)
    (fun b hb => (hv.bindings b hb).2.2) (plain_of_no_locals hl)]
  cases walk s.bindings .moduleObject (func f).path with
  | none => exact ⟨nofun, nofun⟩
  | some o =>
    exact ⟨fun h => congrArg some (Except.ok.inj h), fun h => congrArg _ (Option.some.inj h)⟩

theorem Inv.resolves_accepted (hv : Inv s) {r : PyStr × HandlerInfo} (hr : r ∈ s.accepted)
    (hp : r.2.mode = .process) :
    resolveProcessHandler s r.2.moduleName r.2.qualname = .ok r.2.handler ↔
      Stays s.bindings path .moduleObject r.2.handler := by
  obtain ⟨mode, hinfo⟩ := hv.accepted r hr
  obtain ⟨-, hm, hq, hsafe⟩ := HandlerInfo.postInit_ok hinfo
  obtain ⟨⟨f, hf⟩, hl⟩ := hsafe hp
  rw [hm, hq]
  rw [hf] at hl ⊢
  exact hv.resolves hl

theorem registered_runs {moduleName : PyStr} {handlers : PyStr → Option HandlerInfo}
    (hs : Steps step Any (start moduleName handlers) s) : RunsRegistered s ↔
      ∀ r ∈ s.accepted, r.2.mode = .process →
        Stays s.bindings path .moduleObject r.2.handler :=
  forall₃_congr fun _ hr hp => (inv_of_steps hs).resolves_accepted hr hp

/-- A lambda cannot be bound to its name. -/
theorem Inv.not_stays_lambda (hv : Inv s) {f : FunctionObject} (hk : f.kind = .lambda) :
    ¬Stays s.bindings path .moduleObject (func f) := by
  intro h
  generalize ho : func f = o at h
  cases h with
  | root => cases ho
  | @bound b hl hq _ =>
    rw [← ho, path, hk] at hq
    have hkey : lambdaName = b.key := List.singleton_inj.mp (List.append_inj_right' hq rfl)
    exact (hv.bindings b hl.mem).2.1 (hkey ▸ by decide)

/-- No lambda that is registered for process mode is found. -/
theorem lambda_not_found {moduleName : PyStr} {handlers : PyStr → Option HandlerInfo}
    (hs : Steps step Any (start moduleName handlers) s) {r : PyStr × HandlerInfo}
    (hr : r ∈ s.accepted) (hp : r.2.mode = .process) {f : FunctionObject}
    (hf : r.2.handler = .func f) (hk : f.kind = .lambda) :
    resolveProcessHandler s r.2.moduleName r.2.qualname ≠ .ok r.2.handler := by
  have hv := inv_of_steps hs
  rw [Ne, hv.resolves_accepted hr hp, hf]
  exact hv.not_stays_lambda hk

def jobIdent : Ident := ⟨py "job", by decide⟩

def jobsIdent : Ident := ⟨py "Jobs", by decide⟩

def inProcess : RegisterArgs := { mode := some .process }

def fresh : ModuleState := start (py "tasks") fun _ => none

/-- A class with a registered method. -/
def method : List Statement :=
  [.enterClass jobsIdent, .define jobIdent false [inProcess], .leaveClass]

def methodState : ModuleState := (run step fresh method).get rfl

theorem steps_of_run (es : List Statement) (h : run step fresh es = some s) :
    Steps step Any fresh s :=
  Steps.of_run (fun _ _ _ => trivial) h

theorem registered_runs_method : RunsRegistered methodState := by
  refine (registered_runs (steps_of_run method rfl)).mpr fun r hr _ => ?_
  rw [List.mem_singleton.mp hr]
  exact .bound ⟨[_], [], rfl, by decide⟩ rfl (.bound ⟨[], _, rfl, nofun⟩ rfl .root)

/-- The function `job` of the module, by its number. -/
def jobFunction (n : Nat) : PyObject := .func ⟨n, [], .declared jobIdent, false⟩

/-- `job` is defined once more after it was registered. -/
def redefined : List Statement := [.define jobIdent false [inProcess], .define jobIdent false []]

def redefinedState : ModuleState := (run step fresh redefined).get rfl

/-- A lambda is registered as `job`. -/
def anonymous : List Statement :=
  [.register (.made .lambda) { inProcess with name := some (py "job") }]

def anonymousState : ModuleState := (run step fresh anonymous).get rfl

/-- The child runs the later `job`, and does not find the lambda at all. -/
theorem other_function_runs :
    Steps step Any fresh redefinedState ∧
      redefinedState.accepted =
        [(py "job", ⟨jobFunction 0, .process, false, py "tasks", py "job"⟩)] ∧
      resolveProcessHandler redefinedState (py "tasks") (py "job") = .ok (jobFunction 1) ∧
      ¬RunsRegistered redefinedState ∧
    Steps step Any fresh anonymousState ∧
      anonymousState.accepted = [(py "job",
        ⟨.func ⟨0, [], .lambda, false⟩, .process, false, py "tasks", py "<lambda>"⟩)] ∧
      resolveProcessHandler anonymousState (py "tasks") (py "<lambda>") = .error .attributeError ∧
      ¬RunsRegistered anonymousState := by
  have hred : resolveProcessHandler redefinedState (py "tasks") (py "job") =
      .ok (jobFunction 1) := by
    decide
  have hano : resolveProcessHandler anonymousState (py "tasks") (py "<lambda>") =
      .error .attributeError := by
    decide
  refine ⟨steps_of_run redefined rfl, rfl, hred, fun h => ?_, steps_of_run anonymous rfl, rfl, hano,
    fun h => ?_⟩
  · have hone := h _ (List.mem_singleton.mpr rfl) rfl
    cases hred.symm.trans hone
  · have hone := h _ (List.mem_singleton.mpr rfl) rfl
    cases hano.symm.trans hone

end ModuleState
end Pyxxl
