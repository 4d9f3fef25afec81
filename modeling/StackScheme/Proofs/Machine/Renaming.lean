import StackScheme.Proofs.Arena.Renaming
import StackScheme.Proofs.Machine.Layout
import StackScheme.Proofs.Value.Renaming

/-!
# The machine under new names

If the nodes of the arena get new names, then the machine does the same under the new
names.

* Stacks.  `Stack.map` changes all items of a stack.
* Registers.  `State.rename` is a state under new names, and `Progress.rename` is a stage
  of a run under new names.
* Special forms.  `prepare_rename` and `perform_rename`: what a form asks for is the same,
  and so is the text of its errors.
* Steps.  There is one lemma for each function of the machine.  `step_rename` puts them
  together, and `run_rename` follows by induction.
-/

namespace StackScheme

/-! ## Stacks -/

namespace Stack

variable {α β : Type} (f : α → β)

/-- The stack with a function applied to all items. -/
def map (s : Stack α) : Stack β :=
  ⟨s.items.map f, s.size, by rw [List.length_map, s.size_eq]⟩

@[simp] theorem items_map (s : Stack α) : (s.map f).items = s.items.map f := rfl

@[simp] theorem size_map (s : Stack α) : (s.map f).size = s.size := rfl

theorem pop?_map (s : Stack α) :
    (s.map f).pop? = s.pop?.map fun (a, rest) => (f a, rest.map f) := by
  rcases s with ⟨_ | ⟨a, items⟩, n, h⟩ <;> rfl

theorem top?_map (s : Stack α) : (s.map f).top? = s.top?.map f :=
  List.head?_map

theorem drop_map (s : Stack α) (n : Nat) : (s.map f).drop n = (s.drop n).map f :=
  ext (List.map_drop ..).symm

theorem truncate_map (s : Stack α) (height : Nat) :
    (s.map f).truncate height = (s.truncate height).map f :=
  drop_map f s _

theorem splitOff?_map (s : Stack α) (height : Nat) :
    (s.map f).splitOff? height =
      (s.splitOff? height).map fun (above, below) => (above.map f, below.map f) := by
  unfold splitOff?
  rw [size_map, items_map, truncate_map]
  split
  · simp only [Option.map_some, List.map_take, List.map_reverse]
  · rfl

end Stack

namespace Machine

variable (ρ : NodeId → NodeId)

/-! ## Registers -/

/-- The frame with its combination under a new name. -/
def Frame.rename : Frame → Frame
  | .call f => .call { f with node := ρ f.node }
  | frame => frame

/-- The continuation with its nodes under new names. -/
def Continuation.rename (k : Continuation) : Continuation :=
  { k with returnNode := ρ k.returnNode, remaining := k.remaining.map ρ }

/-- The registers with all nodes under new names. -/
def State.rename (s : State) : State :=
  { s with
    pc := s.pc.map ρ
    operands := s.operands.map (Value.rename ρ)
    frames := s.frames.map (Frame.rename ρ)
    continuations := s.continuations.map (Continuation.rename ρ)
    store := s.store.rename ρ }

/-- The stage of a run with all nodes under new names. -/
def Progress.rename : Progress → Progress
  | .running s => .running (s.rename ρ)
  | .halted outcome s =>
    .halted ((outcome.mapError (Error.rename ρ)).map (Value.rename ρ)) (s.rename ρ)

theorem reachedLimit?_rename (s : State) (limit : Option Nat) :
    (s.rename ρ).reachedLimit? limit = s.reachedLimit? limit := rfl

theorem reachBody_rename (frames : List Frame) :
    reachBody (frames.map (Frame.rename ρ)) = reachBody frames := by
  induction frames with
  | nil => rfl
  | cons frame frames ih =>
    cases frame with
    | call f => exact congrArg (f.task.forwards && ·) ih
    | _ => rfl

theorem forwardingCount_rename (frames : List Frame) :
    forwardingCount (frames.map (Frame.rename ρ)) = forwardingCount frames := by
  induction frames with
  | nil => rfl
  | cons frame frames ih =>
    cases frame with
    | call f => exact congrArg (fun n => if f.task.forwards then n + 1 else 0) ih
    | _ => rfl

theorem unwind_rename (operands : Stack Value) (count : Nat) (frames : List Frame) :
    unwind (operands.map (Value.rename ρ)) count (frames.map (Frame.rename ρ)) =
      (unwind operands count frames).map (Value.rename ρ) := by
  induction frames generalizing operands count with
  | nil => cases count <;> rfl
  | cons frame frames ih =>
    cases count with
    | zero => rfl
    | succ count =>
      cases frame with
      | call f =>
        show unwind ((operands.map (Value.rename ρ)).truncate f.base) count _ = _
        rw [Stack.truncate_map]
        exact ih (operands.truncate f.base) count
      | _ => rfl

theorem inTailPosition_rename (s : State) :
    (s.rename ρ).inTailPosition = s.inTailPosition := by
  unfold State.inTailPosition
  have htop : (s.rename ρ).continuations.top? =
      s.continuations.top?.map (Continuation.rename ρ) := Stack.top?_map _ _
  rw [htop]
  cases s.continuations.top? with
  | none => rfl
  | some k =>
    show ((k.remaining.map ρ).isEmpty && reachBody (s.frames.items.map (Frame.rename ρ))) = _
    rw [reachBody_rename, List.isEmpty_map]

/-! ## Special forms -/

/-- What a form asks for, with its nodes under new names. -/
def FormStep.rename : FormStep → FormStep
  | .value v => .value (v.rename ρ)
  | .bind name v => .bind name (v.rename ρ)
  | .assign name v => .assign name (v.rename ρ)
  | .lambda parameters first rest => .lambda parameters (ρ first) (rest.map ρ)
  | .procedure name parameters first rest => .procedure name parameters (ρ first) (rest.map ρ)
  | .again t => .again t

theorem passValue_rename (values : List Value) :
    passValue (values.map (Value.rename ρ)) = (passValue values).rename ρ := by
  cases values <;> rfl

theorem performIf_rename (t : FormTask) (v : Value) :
    performIf t (v.rename ρ) = (performIf t v).rename ρ := by
  unfold performIf
  rw [Value.isTruthy_rename]
  split <;> rfl

theorem performSequence_rename (t : FormTask) (v : Value) :
    performSequence t (v.rename ρ) = (performSequence t v).rename ρ := by
  unfold performSequence
  rw [Value.isTruthy_rename]
  split
  · rfl
  · generalize (if t.form = .andForm then !v.isTruthy else v.isTruthy) = decided
    dsimp only
    split <;> rfl

section Forms

variable {ρ} {arena arena' : Arena} (h : arena.Renames ρ arena')

include h

theorem malformed_rename {α : Type} (node : NodeId) :
    (malformed arena' (ρ node) : Except Error α) = malformed arena node := by
  rw [malformed, malformed, h.render]

theorem parameters?_rename (ids : List NodeId) :
    parameters? arena' (ids.map ρ) = parameters? arena ids := by
  have hnames : (ids.map ρ).mapM arena'.symbol? = ids.mapM arena.symbol? := by
    induction ids with
    | nil => rfl
    | cons id ids ih => rw [List.map_cons, List.mapM_cons, List.mapM_cons, h.symbol?, ih]
  rw [parameters?, parameters?, hnames]

theorem bind_node?_rename (ids : List NodeId) :
    (ids.map ρ).head?.bind arena'.node? = (ids.head?.bind arena.node?).map (Node.rename ρ) := by
  cases ids with
  | nil => rfl
  | cons id ids => exact h.node id

theorem bind_symbol?_rename (ids : List NodeId) :
    (ids.map ρ).head?.bind arena'.symbol? = ids.head?.bind arena.symbol? := by
  cases ids with
  | nil => rfl
  | cons id ids => exact h.symbol? id

/-- A form is prepared in the same way. -/
theorem prepare_rename (node : NodeId) (form : SpecialForm) :
    prepare arena' (ρ node) form = prepare arena node form := by
  unfold prepare
  rw [h.operands, malformed_rename h]
  cases form with
  | defineForm =>
    dsimp only
    rw [bind_node?_rename h]
    rcases (arena.operands node).head?.bind arena.node? with _ | ⟨shape, next⟩
    · rfl
    cases shape with
    | atom a => cases a <;> simp [Node.rename, Shape.rename, firstPass]
    | compound operator => simp [Node.rename, Shape.rename, firstPass]
    | empty => rfl
  | setForm =>
    dsimp only
    rw [bind_symbol?_rename h, List.length_map]
    simp [firstPass]
  | _ => simp [firstPass]

theorem performLambda_rename (node : NodeId) :
    performLambda arena' (ρ node) =
      ((performLambda arena node).mapError (Error.rename ρ)).map (FormStep.rename ρ) := by
  unfold performLambda
  rw [h.operands, malformed_rename h]
  rcases arena.operands node with _ | ⟨formals, _ | ⟨first, rest⟩⟩
  · rfl
  · rfl
  simp only [List.map_cons]
  rw [h.node, h.children, parameters?_rename h]
  rcases arena.node? formals with _ | ⟨shape, next⟩
  · rfl
  cases shape with
  | atom a => rfl
  | compound operator => cases parameters? arena (arena.children formals) <;> rfl
  | empty => cases parameters? arena (arena.children formals) <;> rfl

theorem performDefine_rename (node : NodeId) (v : Value) :
    performDefine arena' (ρ node) (v.rename ρ) =
      ((performDefine arena node v).mapError (Error.rename ρ)).map (FormStep.rename ρ) := by
  unfold performDefine
  rw [h.operands, malformed_rename h]
  rcases arena.operands node with _ | ⟨target, _ | ⟨first, rest⟩⟩
  · rfl
  · rfl
  simp only [List.map_cons]
  rw [h.symbol?, h.children]
  cases arena.symbol? target with
  | some name => rfl
  | none =>
    rcases arena.children target with _ | ⟨nameNode, formals⟩
    · rfl
    simp only [List.map_cons]
    rw [h.symbol?, parameters?_rename h]
    cases arena.symbol? nameNode with
    | none => rfl
    | some name => cases parameters? arena formals <;> rfl

theorem performSet_rename (node : NodeId) (v : Value) :
    performSet arena' (ρ node) (v.rename ρ) =
      ((performSet arena node v).mapError (Error.rename ρ)).map (FormStep.rename ρ) := by
  unfold performSet
  rw [h.operands, bind_symbol?_rename h]
  cases (arena.operands node).head?.bind arena.symbol? <;> rfl

theorem performQuote_rename (node : NodeId) :
    performQuote arena' (ρ node) =
      ((performQuote arena node).mapError (Error.rename ρ)).map (FormStep.rename ρ) := by
  unfold performQuote
  rw [h.operands, h.render]
  rcases arena.operands node with _ | ⟨datum, rest⟩
  · rfl
  simp only [List.map_cons]
  rw [h.node]
  rcases arena.node? datum with _ | ⟨shape, next⟩
  · rfl
  cases shape with
  | atom a =>
    have hvalue := Value.rename_ofAtom ρ datum a
    exact congrArg (fun v => Except.ok (FormStep.value v)) hvalue.symm
  | compound operator => rfl
  | empty => rfl

/-- A form asks for the same. -/
theorem perform_rename (node : NodeId) (t : FormTask) (values : List Value) :
    perform arena' (ρ node) t (values.map (Value.rename ρ)) =
      ((perform arena node t values).mapError (Error.rename ρ)).map (FormStep.rename ρ) := by
  unfold perform
  rw [passValue_rename]
  cases t.form with
  | ifForm => exact congrArg Except.ok (performIf_rename ρ t _)
  | andForm | orForm => exact congrArg Except.ok (performSequence_rename ρ t _)
  | lambdaForm => exact performLambda_rename h node
  | defineForm => exact performDefine_rename h node _
  | setForm => exact performSet_rename h node _
  | quoteForm => exact performQuote_rename h node

end Forms

/-! ## Steps -/

section Steps

variable {ρ} {arena arena' : Arena} (h : arena.Renames ρ arena') (limit : Option Nat)

include h

theorem deliver_rename (node : NodeId) (v : Value) (s : State) :
    deliver arena' (ρ node) (v.rename ρ) (s.rename ρ) = (deliver arena node v s).rename ρ := by
  have hpop : (s.rename ρ).frames.pop? = _ := Stack.pop?_map (Frame.rename ρ) s.frames
  unfold deliver
  rw [hpop]
  rcases s.frames.pop? with _ | ⟨frame, frames⟩
  · rfl
  cases frame with
  | topLevel => rfl
  | body base => rfl
  | call f =>
    obtain ⟨parent, base, position, task⟩ := f
    dsimp only [Option.map_some, Frame.rename]
    rw [h.node]
    rcases arena.node? node with _ | ⟨shape, next⟩
    · rfl
    dsimp only [Option.map_some, Node.rename]
    cases position with
    | succ position => cases v <;> rfl
    | zero =>
      cases v with
      | special form =>
        simp only [Value.rename]
        rw [prepare_rename h]
        cases hprepare : prepare arena parent form with
        | ok t =>
          rfl
        | error e =>
          obtain rfl := eq_malformed_of_prepare hprepare
          rfl
      | _ => rfl

theorem enter_rename (node : NodeId) (s : State) :
    enter arena' limit (ρ node) (s.rename ρ) = (enter arena limit node s).rename ρ := by
  unfold enter
  rw [h.node]
  rcases arena.node? node with _ | ⟨shape, next⟩
  · rfl
  cases shape with
  | empty => exact deliver_rename h node .unspecified s
  | compound operator =>
    dsimp only [Option.map_some, Node.rename, Shape.rename]
    rw [reachedLimit?_rename]
    cases s.reachedLimit? limit <;> rfl
  | atom a =>
    have hvalue := Value.rename_ofAtom ρ node a
    have hdeliver := deliver_rename h node (.ofAtom node a) s
    rw [hvalue] at hdeliver
    cases a with
    | symbol name =>
      have hlookup : (s.rename ρ).store.lookup? (s.rename ρ).scope name = _ :=
        Store.lookup?_rename ρ s.store s.scope name
      dsimp only [Option.map_some, Node.rename, Shape.rename]
      rw [hlookup]
      cases s.store.lookup? s.scope name with
      | some v => exact deliver_rename h node v s
      | none => rfl
    | _ => exact hdeliver

omit h in
/-- The scope of a call is made in the same way. -/
theorem extend_rename (store : Store) (c : Closure) (args : List Value) :
    (store.rename ρ).extend c.scope (c.parameters.zip (args.map (Value.rename ρ))) =
      (store.extend c.scope (c.parameters.zip args)).rename ρ := by
  rw [Store.rename_extend, List.zip_map_right]
  rfl

omit h in
theorem tailCall_rename (c : Closure) (args : List Value) (s : State) :
    tailCall (c.rename ρ) (args.map (Value.rename ρ)) (s.rename ρ) =
      (tailCall c args s).rename ρ := by
  have hpop : (s.rename ρ).continuations.pop? = _ :=
    Stack.pop?_map (Continuation.rename ρ) s.continuations
  have hcount : forwardingCount (s.rename ρ).frames.items = _ :=
    forwardingCount_rename ρ s.frames.items
  have hoperands : ∀ count, unwind (s.rename ρ).operands count (s.rename ρ).frames.items = _ :=
    fun count => unwind_rename ρ s.operands count s.frames.items
  have hframes : ∀ count, (s.rename ρ).frames.drop count = _ :=
    fun count => Stack.drop_map (Frame.rename ρ) s.frames count
  have hstore : (s.rename ρ).store.extend (c.rename ρ).scope
      ((c.rename ρ).parameters.zip (args.map (Value.rename ρ))) = _ :=
    extend_rename s.store c args
  have hscope : (s.rename ρ).store.nextScope = _ := Store.nextScope_rename ρ s.store
  unfold tailCall
  rw [hpop]
  rcases s.continuations.pop? with _ | ⟨k, continuations⟩
  · rfl
  dsimp only [Option.map_some]
  rw [hcount, hoperands, hframes, hstore, hscope]
  rfl

omit h in
theorem nestedCall_rename (node : NodeId) (c : Closure) (args : List Value) (s : State) :
    nestedCall (ρ node) (c.rename ρ) (args.map (Value.rename ρ)) (s.rename ρ) =
      (nestedCall node c args s).rename ρ := by
  have hstore : (s.rename ρ).store.extend (c.rename ρ).scope
      ((c.rename ρ).parameters.zip (args.map (Value.rename ρ))) = _ :=
    extend_rename s.store c args
  have hscope : (s.rename ρ).store.nextScope = _ := Store.nextScope_rename ρ s.store
  unfold nestedCall
  rw [hstore, hscope]
  rfl

omit h in
theorem apply_rename (node : NodeId) (c : Closure) (args : List Value) (s : State) :
    apply limit (ρ node) (c.rename ρ) (args.map (Value.rename ρ)) (s.rename ρ) =
      (apply limit node c args s).rename ρ := by
  unfold apply
  rw [List.length_map, inTailPosition_rename, reachedLimit?_rename, tailCall_rename,
    nestedCall_rename]
  have hparameters : (c.rename ρ).parameters = c.parameters := rfl
  rw [hparameters]
  split
  · rfl
  · split
    · rfl
    · cases s.reachedLimit? limit <;> rfl

theorem writeText_rename (node : NodeId) (text : String) (s : State) :
    writeText arena' (ρ node) text (s.rename ρ) = (writeText arena node text s).rename ρ := by
  unfold writeText
  have hsink : (s.rename ρ).sink = s.sink := rfl
  rw [hsink]
  rcases s.sink.write text with ⟨_ | reason, sink⟩
  · exact deliver_rename h node .unspecified { s with sink }
  · rfl

theorem callBuiltin_rename (node : NodeId) (b : Builtin) (args : List Value) (s : State) :
    callBuiltin arena' (ρ node) b (args.map (Value.rename ρ)) (s.rename ρ) =
      (callBuiltin arena node b args s).rename ρ := by
  have hplain := b.computes_call args
  unfold callBuiltin
  rw [b.call_rename ρ args h.injective]
  rcases hcall : b.call args with e | ⟨v | text⟩ <;> rw [hcall] at hplain
  · rfl
  · have hdeliver := deliver_rename h node v s
    rw [Value.rename_of_isPlain ρ (hplain : v.IsPlain)] at hdeliver
    exact hdeliver
  · exact writeText_rename h node text s

/-- A name is bound in the same way. -/
theorem deliver_bind_rename (node : NodeId) (id : ScopeId) (name : String) (v : Value)
    (s : State) :
    deliver arena' (ρ node) .unspecified
        { s.rename ρ with store := (s.rename ρ).store.bind id name (v.rename ρ) } =
      (deliver arena node .unspecified { s with store := s.store.bind id name v }).rename ρ := by
  have hdeliver := deliver_rename h node .unspecified { s with store := s.store.bind id name v }
  unfold State.rename at hdeliver
  rw [Store.rename_bind] at hdeliver
  exact hdeliver

theorem performStep_rename (f : CallFrame) (form : SpecialForm) (next : FormStep) (s : State) :
    performStep arena' { f with node := ρ f.node } form (next.rename ρ) (s.rename ρ) =
      (performStep arena f form next s).rename ρ := by
  cases next with
  | value v => exact deliver_rename h f.node v s
  | bind name v => exact deliver_bind_rename h f.node s.scope name v s
  | assign name v =>
    have hholder : (s.rename ρ).store.holder? (s.rename ρ).scope name = _ :=
      Store.holder?_rename ρ s.store s.scope name
    dsimp only [performStep, FormStep.rename]
    rw [hholder]
    cases s.store.holder? s.scope name with
    | none => rfl
    | some holder => exact deliver_bind_rename h f.node holder name v s
  | lambda parameters first rest =>
    exact deliver_rename h f.node (.closure (newClosure s none parameters first rest))
      { s with store := s.store.newSerial }
  | procedure name parameters first rest =>
    exact deliver_bind_rename h f.node s.scope name
      (.closure (newClosure s (some name) parameters first rest))
      { s with store := s.store.newSerial }
  | again t =>
    dsimp only [performStep, FormStep.rename]
    rw [h.operands, List.head?_map]
    rfl

theorem callForm_rename (f : CallFrame) (form : SpecialForm) (values : List Value) (s : State) :
    callForm arena' { f with node := ρ f.node } form (values.map (Value.rename ρ)) (s.rename ρ) =
      (callForm arena f form values s).rename ρ := by
  obtain ⟨node, base, position, task⟩ := f
  cases task with
  | call => rfl
  | form t =>
    dsimp only [callForm]
    rw [perform_rename h]
    cases perform arena node t values with
    | error e => rfl
    | ok next => exact performStep_rename h ⟨node, base, position, .form t⟩ form next s

theorem dispatch_rename (f : CallFrame) (values : List Value) (s : State) :
    dispatch arena' limit { f with node := ρ f.node } (values.map (Value.rename ρ))
        (s.rename ρ) =
      (dispatch arena limit f values s).rename ρ := by
  rcases values with _ | ⟨operator, args⟩
  · rfl
  cases operator with
  | builtin b => exact callBuiltin_rename h f.node b args s
  | special form => exact callForm_rename h f form args s
  | closure c => exact apply_rename limit f.node c args s
  | _ => exact congrArg (fun text => (s.rename ρ).fail (.notApplicable _ text)) (h.render f.node)

theorem leaveBody_rename (v : Value) (s : State) :
    leaveBody arena' (v.rename ρ) (s.rename ρ) = (leaveBody arena v s).rename ρ := by
  have hpop : (s.rename ρ).continuations.pop? = _ :=
    Stack.pop?_map (Continuation.rename ρ) s.continuations
  unfold leaveBody
  rw [hpop]
  rcases s.continuations.pop? with _ | ⟨⟨callerScope, returnNode, remaining⟩, continuations⟩
  · rfl
  cases remaining with
  | nil => exact deliver_rename h returnNode v { s with scope := callerScope, continuations }
  | cons next remaining => rfl

theorem reduce_rename (s : State) :
    reduce arena' limit (s.rename ρ) = (reduce arena limit s).rename ρ := by
  have hpop : (s.rename ρ).frames.pop? = _ := Stack.pop?_map (Frame.rename ρ) s.frames
  have hoperands : (s.rename ρ).operands.pop? = _ := Stack.pop?_map (Value.rename ρ) s.operands
  have hsplit : ∀ base, (s.rename ρ).operands.splitOff? base = _ :=
    Stack.splitOff?_map (Value.rename ρ) s.operands
  unfold reduce
  rw [hpop]
  rcases s.frames.pop? with _ | ⟨frame, frames⟩
  · rfl
  cases frame with
  | topLevel =>
    dsimp only [Option.map_some, Frame.rename]
    rw [hoperands]
    cases s.operands.pop? <;> rfl
  | body base =>
    dsimp only [Option.map_some, Frame.rename]
    rw [hoperands]
    rcases s.operands.pop? with _ | ⟨v, operands⟩
    · rfl
    dsimp only [Option.map_some]
    rw [Stack.size_map]
    split
    · exact leaveBody_rename h v { s with frames, operands }
    · rfl
  | call f =>
    dsimp only [Option.map_some, Frame.rename]
    rw [hsplit]
    rcases s.operands.splitOff? f.base with _ | ⟨values, operands⟩
    · rfl
    exact dispatch_rename h limit f values { s with frames, operands }

theorem skip_rename (task : Task) (fuel : Nat) (pc : Option NodeId) (position : Nat) :
    skip arena' task fuel (pc.map ρ) position =
      (skip arena task fuel pc position).map fun (pc, position) => (pc.map ρ, position) := by
  induction fuel generalizing pc position with
  | zero => cases pc <;> rfl
  | succ fuel ih =>
    cases pc with
    | none => rfl
    | some node =>
      dsimp only [Option.map_some, skip]
      rw [h.node]
      split
      · cases arena.node? node with
        | none => rfl
        | some node => exact ih node.next (position + 1)
      · rfl

theorem skipUnwanted_rename (s : State) :
    skipUnwanted arena' (s.rename ρ) = (skipUnwanted arena s).map (State.rename ρ) := by
  have hpop : (s.rename ρ).frames.pop? = _ := Stack.pop?_map (Frame.rename ρ) s.frames
  unfold skipUnwanted
  rw [hpop]
  rcases s.frames.pop? with _ | ⟨frame, frames⟩
  · rfl
  cases frame with
  | topLevel => rfl
  | body base => rfl
  | call f =>
    obtain ⟨node, base, position, task⟩ := f
    cases task with
    | call => rfl
    | form t =>
      have hskip : skip arena' (.form t) (t.operandCount + 1) (s.rename ρ).pc position = _ :=
        skip_rename h (.form t) (t.operandCount + 1) s.pc position
      dsimp only [Option.map_some, Frame.rename]
      rw [hskip]
      cases skip arena (.form t) (t.operandCount + 1) s.pc position <;> rfl

/-- One step is the same under new names. -/
theorem step_rename (s : State) :
    step arena' limit (s.rename ρ) = (step arena limit s).rename ρ := by
  have hskip : skipUnwanted arena' (tick (s.rename ρ)) = _ := skipUnwanted_rename h (tick s)
  dsimp only [step]
  rw [hskip]
  cases skipUnwanted arena (tick s) with
  | error fault => rfl
  | ok t =>
    obtain ⟨pc, operands, frames, scope, continuations, store, sink, stats⟩ := t
    cases pc with
    | some node =>
      exact enter_rename h limit node
        ⟨some node, operands, frames, scope, continuations, store, sink, stats⟩
    | none =>
      exact reduce_rename h limit
        ⟨none, operands, frames, scope, continuations, store, sink, stats⟩

/-- A whole run is the same under new names. -/
theorem run_rename (fuel : Nat) (s : State) :
    run arena' limit fuel (s.rename ρ) = (run arena limit fuel s).map fun (outcome, s) =>
      ((outcome.mapError (Error.rename ρ)).map (Value.rename ρ), s.rename ρ) := by
  induction fuel generalizing s with
  | zero => rfl
  | succ fuel ih =>
    rw [run, run, step_rename h]
    cases step arena limit s with
    | running t => exact ih t
    | halted outcome t => rfl

end Steps

end Machine

end StackScheme
