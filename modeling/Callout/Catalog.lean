import Callout.Source.Basic

namespace Callout

/-- Steps that change a state and may fail. A failure undoes nothing of what was changed before it. -/
abbrev Action (σ α : Type) := ExceptT Error (StateM σ) α

/-- What steps answer from a state, and the state that they leave. -/
def Action.from {σ α : Type} (action : Action σ α) (state : σ) : Except Error α × σ :=
  (action.run.run state).run

/-- A step that reads and changes nothing. -/
def Action.ofExcept {σ α : Type} (result : Except Error α) : Action σ α :=
  MonadExcept.ofExcept result

namespace Action

variable {σ α β : Type}

@[simp]
theorem from_bind (action : Action σ α) (next : α → Action σ β) (state : σ) :
    (action >>= next).from state =
      match action.from state with
      | (.ok a, later) => (next a).from later
      | (.error e, later) => (.error e, later) := by
  have hrun : (action >>= next).from state = (fun r : Except Error α × σ =>
      ((ExceptT.bindCont next r.1 : StateM σ _).run r.2).run) (action.from state) := rfl
  rw [hrun]
  rcases action.from state with ⟨_ | a, later⟩ <;> rfl

@[simp]
theorem from_pure (a : α) (state : σ) : (pure a : Action σ α).from state = (.ok a, state) := rfl

@[simp]
theorem from_get (state : σ) : (get : Action σ σ).from state = (.ok state, state) := rfl

@[simp]
theorem from_getThe (state : σ) : (getThe σ : Action σ σ).from state = (.ok state, state) := rfl

@[simp]
theorem from_modify (f : σ → σ) (state : σ) :
    (modify f : Action σ PUnit).from state = (.ok ⟨⟩, f state) := rfl

@[simp]
theorem from_modifyThe (f : σ → σ) (state : σ) :
    (modifyThe σ f : Action σ PUnit).from state = (.ok ⟨⟩, f state) := rfl

@[simp]
theorem from_ofExcept (result : Except Error α) (state : σ) :
    (ofExcept result : Action σ α).from state = (result, state) := by
  cases result <;> rfl

end Action

/-- The known sources, each identifier once. -/
structure Catalog where
  entries : List (SourceId × Source) := []

namespace Catalog

/-- The source of an identifier, if it is known. -/
def find? (c : Catalog) (id : SourceId) : Option Source :=
  c.entries.lookup id

def contains (c : Catalog) (id : SourceId) : Bool :=
  (c.find? id).isSome

def size (c : Catalog) : Nat :=
  c.entries.length

/-- The source of an identifier, or the reason that there is none. -/
def get (c : Catalog) (id : SourceId) : Except Error Source :=
  match c.find? id with
  | some source => .ok source
  | none => .error (.unknownSource id)

/-- Stores a source, in place of the one that an identifier may have had. -/
def insert (c : Catalog) (id : SourceId) (source : Source) : Catalog :=
  ⟨(id, source) :: c.entries.filter fun e => e.1 ≠ id⟩

/-- The source of an identifier; an unknown one is analyzed from `raw` and stored. -/
def add (id : SourceId) (raw : RawText) : Action Catalog Source := do
  match (← getThe Catalog).find? id with
  | some source => return source
  | none =>
    let source ← Action.ofExcept (Source.analyze raw)
    modifyThe Catalog fun c => c.insert id source
    return source

theorem add_known {c : Catalog} {id : SourceId} {source : Source} (raw : RawText)
    (h : c.find? id = some source) : (add id raw).from c = (.ok source, c) := by
  simp only [add, Action.from_bind, Action.from_getThe, h, Action.from_pure]

theorem add_unknown {c : Catalog} {id : SourceId} (raw : RawText) (h : c.find? id = none) :
    (add id raw).from c =
      match Source.analyze raw with
      | .ok source => (.ok source, c.insert id source)
      | .error e => (.error e, c) := by
  simp only [add, Action.from_bind, Action.from_getThe, h, Action.from_ofExcept,
    Action.from_modifyThe, Action.from_pure]
  cases Source.analyze raw <;> rfl

end Catalog

end Callout
