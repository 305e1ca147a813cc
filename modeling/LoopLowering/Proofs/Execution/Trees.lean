import LoopLowering.Code.Typing
import LoopLowering.Proofs.Execution.Values
import LoopLowering.Types.ClassTable

namespace LoopLowering

/-!
# Executions of trees

What a method does by its tree, whatever the passes have recorded about it.
Expressions are evaluated from left to right, the collection of a loop once, and
the body of a loop once for each element in order. An array that an expression
creates is in memory, or it stays unseen: then it has no reference, and it cannot
be passed to a call or returned. An execution that asks an iterator too often is
cut, so that executions without an end are described by their beginnings.
-/

/-- The value of an expression: a word, or an array that stays unseen. -/
inductive Value where
  | word (value : Word)
  | unseen (number : Nat)
  deriving Repr, DecidableEq

/-- The kind of a value. -/
def Value.kind :
    Value → ValueKind
  | .word value => value.kind
  | .unseen _ => .reference

namespace BinOp

/-- The result of an operator on two integers. -/
def onInts :
    BinOp → Int32 → Int32 → Word
  | .add, left, right => .int (left + right)
  | .sub, left, right => .int (left - right)
  | .mul, left, right => .int (left * right)
  | .lt, left, right => .truth (decide (left < right))
  | .le, left, right => .truth (decide (left ≤ right))
  | .gt, left, right => .truth (decide (right < left))
  | .ge, left, right => .truth (decide (right ≤ left))
  | .eq, left, right => .truth (left == right)
  | .ne, left, right => .truth (left != right)

/-- The result of an operator on two references, if it is an equality test. -/
def onReferences? :
    BinOp → Value → Value → Option Word
  | .eq, left, right => some (.truth (left == right))
  | .ne, left, right => some (.truth (left != right))
  | _, _, _ => none

/-- The result of an operator on two values of one kind. -/
def onValues?
    (op : BinOp)
    (left right : Value) :
    Option Word :=
  match left, right with
  | .word (.int first), .word (.int second) => some (op.onInts first second)
  | left, right =>
      if left.kind = .reference ∧ right.kind = .reference then op.onReferences? left right
      else none

end BinOp

/-- The state of an execution: the values of the locals that have one, the
memory, the elements of the arrays that stay unseen, and how many of these there
are. -/
structure TreeState where
  locals : Nat → Option Value
  memory : Memory
  unseen : Nat → List Value
  hidden : Nat

namespace TreeState

/-- Give a local a value. -/
def put
    (state : TreeState)
    (id : Nat)
    (value : Value) :
    TreeState :=
  { state with locals := Function.update state.locals id (some value) }

/-- Leave a local without a value. -/
def forget
    (state : TreeState)
    (id : Nat) :
    TreeState :=
  { state with locals := Function.update state.locals id none }

/-- Change the memory. -/
def withMemory
    (state : TreeState)
    (memory : Memory) :
    TreeState :=
  { state with memory := memory }

/-- Keep the elements of an array unseen. -/
def hide
    (state : TreeState)
    (elements : List Value) :
    TreeState :=
  { state with
    unseen := Function.update state.unseen state.hidden elements
    hidden := state.hidden + 1 }

/-- The number of elements of an array. -/
def length?
    (state : TreeState) :
    Value → Option Nat
  | .word (.reference array) => some (state.memory.arrays array).length
  | .unseen number => some (state.unseen number).length
  | .word (.int _) => none

/-- An element of an array, given its kind. -/
def element?
    (state : TreeState)
    (kind : ValueKind)
    (index : Nat) :
    Value → Option Value
  | .word (.reference array) =>
      some (.word (((state.memory.arrays array).element index).word kind))
  | .unseen number => (state.unseen number)[index]?
  | .word (.int _) => none

end TreeState

/-- What a loop takes its elements from. -/
inductive LoopSource where
  | array (collection : Value) (kind : ValueKind) (length : Nat)
  | iterator (reference : Reference)

namespace LoopSource

/-- Whether the elements come from an iterator. -/
def isIterator :
    LoopSource → Bool
  | .array .. => false
  | .iterator _ => true

/-- Whether there is another element, after as many as have been taken. -/
def test
    (table : ClassTable)
    (outside : Outside)
    (state : TreeState)
    (index : Nat) :
    LoopSource → Bool × TreeState
  | .array _ _ length => (decide (index < length), state)
  | .iterator reference =>
      let (datum, memory) := outside.answer
        (.method "hasNext" (table.methodDescriptor ⟨[], .boolean⟩) reference []) state.memory
      (datum.int != 0, state.withMemory memory)

/-- Take the next element, after as many as have been taken. -/
def take?
    (table : ClassTable)
    (outside : Outside)
    (state : TreeState)
    (index : Nat) :
    LoopSource → Option (Value × TreeState)
  | .array collection kind _ =>
      (state.element? kind index collection).map (fun value => (value, state))
  | .iterator reference =>
      let (datum, memory) := outside.answer
        (.method "next" (table.methodDescriptor ⟨[], .object⟩) reference []) state.memory
      some (.word (.reference datum.reference), state.withMemory memory)

end LoopSource

/-- How the execution of a statement ends. -/
inductive Ending where
  | completes
  | breaks (label : Option String)
  | continues (label : Option String)
  | returns (value : Option Word)
  /-- The execution is not followed any further. -/
  | cut
  deriving Repr, DecidableEq

namespace Ending

/-- Whether a loop with a label, if it has one, goes on after its body has ended. -/
def resumes
    (label : Option String) :
    Ending → Bool
  | .completes | .continues none => true
  | .continues (some name) => label == some name
  | _ => false

/-- How a loop ends if its body has ended so and the loop does not go on. -/
def ofLoop :
    Ending → Ending
  | .breaks none => .completes
  | ending => ending

/-- How a labeled statement ends if the statement inside has ended so. -/
def ofLabeled
    (label : String) :
    Ending → Ending
  | .breaks (some name) => if name = label then .completes else .breaks (some name)
  | ending => ending

end Ending

namespace CodeContext

mutual

/-- An expression is evaluated. -/
inductive Evaluates
    (context : CodeContext)
    (outside : Outside) :
    TreeState → Expr → Value → TreeState → Prop where
  | intLit {state : TreeState} {span : Span} {value : Int32} :
      Evaluates context outside state (.intLit span value) (.word (.int value)) state
  | boolLit {state : TreeState} {span : Span} {value : Bool} :
      Evaluates context outside state (.boolLit span value) (.word (.truth value)) state
  | stringLit {state : TreeState} {span : Span} {value : String} :
      Evaluates context outside state (.stringLit span value) (.word (.reference (.text value)))
        state
  | null {state : TreeState} {span : Span} :
      Evaluates context outside state (.null span) (.word (.reference .null)) state
  | name {state : TreeState} {span : Span} {ref : NameRef} {id : Nat} {value : Value} :
      ref.binding = some id →
      state.locals id = some value →
      Evaluates context outside state (.name span ref) value state
  /-- An array is created before its elements are evaluated. -/
  | newArray {state after : TreeState} {span : Span} {component : TypeExpr} {elements : List Expr}
      (bounded : elements.length < 0x80000000) :
      Fills context outside (state.withMemory (state.memory.create elements.length bounded))
        state.memory.next 0 elements after →
      Evaluates context outside state (.newArray span component elements)
        (.word (.reference state.memory.next)) after
  | hiddenArray {state after : TreeState} {span : Span} {component : TypeExpr}
      {elements : List Expr} {values : List Value} :
      EvaluatesAll context outside state elements values after →
      Evaluates context outside state (.newArray span component elements)
        (.unseen after.hidden) (after.hide values)
  | binary {state middle after : TreeState} {span : Span} {op : BinOp} {left right : Expr}
      {first second : Value} {result : Word} :
      Evaluates context outside state left first middle →
      Evaluates context outside middle right second after →
      op.onValues? first second = some result →
      Evaluates context outside state (.binary span op left right) (.word result) after
  | assign {state after : TreeState} {span : Span} {target : Spanned NameRef} {expr : Expr}
      {id : Nat} {value : Value} :
      target.node.binding = some id →
      Evaluates context outside state expr value after →
      Evaluates context outside state (.assign span target none expr) value (after.put id value)
  /-- The target of a compound assignment is read before the value is evaluated. -/
  | assignOperated {state after : TreeState} {span : Span} {target : Spanned NameRef} {op : BinOp}
      {expr : Expr} {id : Nat} {before value : Value} {result : Word} :
      target.node.binding = some id →
      state.locals id = some before →
      Evaluates context outside state expr value after →
      op.onValues? before value = some result →
      Evaluates context outside state (.assign span target (some op) expr) (.word result)
        (after.put id (.word result))
  /-- The result of a call without one is not used. -/
  | call {state after : TreeState} {span : Span} {function : Spanned String} {args : List Expr}
      {info : FunctionInfo} {words : List Word} {datum : Datum} {memory : Memory} :
      context.table.function? function.node = some info →
      EvaluatesAll context outside state args (words.map .word) after →
      outside.answer (.function ⟨context.table.internalName info.owner, function.node,
        context.table.methodDescriptor info.signature⟩ words) after.memory = (datum, memory) →
      Evaluates context outside state (.call span function args)
        (.word (datum.word (.ofTy info.signature.returnType))) (after.withMemory memory)
  | methodCall {state middle after : TreeState} {span : Span} {receiver : Expr}
      {method : Spanned String} {args : List Expr} {found : ClassTable.FoundMethod}
      {object : Reference} {words : List Word} {datum : Datum} {memory : Memory} :
      context.table.lookupMethod (context.exprType receiver) method.node = some found →
      Evaluates context outside state receiver (.word (.reference object)) middle →
      EvaluatesAll context outside middle args (words.map .word) after →
      outside.answer (.method method.node (context.table.methodDescriptor found.declared) object
        words) after.memory = (datum, memory) →
      Evaluates context outside state (.methodCall span receiver method args)
        (.word (datum.word (.ofTy found.seen.returnType))) (after.withMemory memory)

/-- Expressions are evaluated from left to right. -/
inductive EvaluatesAll
    (context : CodeContext)
    (outside : Outside) :
    TreeState → List Expr → List Value → TreeState → Prop where
  | nil {state : TreeState} :
      EvaluatesAll context outside state [] [] state
  | cons {state middle after : TreeState} {expr : Expr} {rest : List Expr} {value : Value}
      {values : List Value} :
      Evaluates context outside state expr value middle →
      EvaluatesAll context outside middle rest values after →
      EvaluatesAll context outside state (expr :: rest) (value :: values) after

/-- The elements of an array in memory are evaluated and put in their places, from
an index on. -/
inductive Fills
    (context : CodeContext)
    (outside : Outside) :
    TreeState → Reference → Nat → List Expr → TreeState → Prop where
  | nil {state : TreeState} {array : Reference} {index : Nat} :
      Fills context outside state array index [] state
  | cons {state middle after : TreeState} {array : Reference} {index : Nat} {expr : Expr}
      {rest : List Expr} {word : Word} :
      Evaluates context outside state expr (.word word) middle →
      Fills context outside (middle.withMemory (middle.memory.store array index word)) array
        (index + 1) rest after →
      Fills context outside state array index (expr :: rest) after

end

mutual

/-- A statement is executed, with the label directly before it, if there is one. A
loop asks an iterator for a number of elements at most. -/
inductive Executes
    (context : CodeContext)
    (outside : Outside)
    (rounds : Nat) :
    TreeState → Option String → Stmt → Ending → TreeState → Prop where
  | declare {state : TreeState} {label : Option String} {span : Span} {decl : LocalDecl} {id : Nat} :
      decl.binding = some id →
      decl.initial = none →
      Executes context outside rounds state label (.localVar span decl) .completes
        (state.forget id)
  | declareValue {state after : TreeState} {label : Option String} {span : Span} {decl : LocalDecl}
      {id : Nat} {expr : Expr} {value : Value} :
      decl.binding = some id →
      decl.initial = some expr →
      Evaluates context outside state expr value after →
      Executes context outside rounds state label (.localVar span decl) .completes
        (after.put id value)
  | expr {state after : TreeState} {label : Option String} {span : Span} {expr : Expr}
      {value : Value} :
      Evaluates context outside state expr value after →
      Executes context outside rounds state label (.expr span expr) .completes after
  | block {state after : TreeState} {label : Option String} {span : Span} {stmts : List Stmt}
      {facts : BlockFacts} {ending : Ending} :
      ExecutesAll context outside rounds state stmts ending after →
      Executes context outside rounds state label (.block span stmts facts) ending after
  | thenBranch {state middle after : TreeState} {label : Option String} {span : Span}
      {condition : Expr} {thenBranch : Stmt} {elseBranch : Option Stmt} {truth : Int32}
      {ending : Ending} :
      Evaluates context outside state condition (.word (.int truth)) middle →
      truth ≠ 0 →
      Executes context outside rounds middle none thenBranch ending after →
      Executes context outside rounds state label (.branch span condition thenBranch elseBranch)
        ending after
  | elseBranch {state middle after : TreeState} {label : Option String} {span : Span}
      {condition : Expr} {thenBranch : Stmt} {elseBranch : Option Stmt} {ending : Ending} :
      Evaluates context outside state condition (.word (.int 0)) middle →
      ExecutesIfAny context outside rounds middle elseBranch ending after →
      Executes context outside rounds state label (.branch span condition thenBranch elseBranch)
        ending after
  | overArray {state middle after : TreeState} {label : Option String} {span : Span}
      {element : LocalDecl} {collection : Expr} {action : Option Stmt} {facts : LoopFacts}
      {id : Nat} {component : Ty} {array : Value} {length : Nat} {ending : Ending} :
      element.binding = some id →
      context.exprType collection = .array component →
      Evaluates context outside state collection array middle →
      middle.length? array = some length →
      Loops context outside rounds middle label id (.array array (.ofTy component) length)
        action 0 ending after →
      Executes context outside rounds state label
        (.forEach span element collection action facts) ending after
  | overIterable {state middle after : TreeState} {label : Option String} {span : Span}
      {element : LocalDecl} {collection : Expr} {action : Option Stmt} {facts : LoopFacts}
      {id : Nat} {iterable : Reference} {datum : Datum} {memory : Memory} {ending : Ending} :
      element.binding = some id →
      (∀ component, context.exprType collection ≠ .array component) →
      Evaluates context outside state collection (.word (.reference iterable)) middle →
      outside.answer (.method "iterator"
        (context.table.methodDescriptor ⟨[], .named "Iterator"⟩) iterable []) middle.memory =
          (datum, memory) →
      Loops context outside rounds (middle.withMemory memory) label id
        (.iterator datum.reference) action 0 ending after →
      Executes context outside rounds state label
        (.forEach span element collection action facts) ending after
  | labeled {state after : TreeState} {outer : Option String} {span : Span}
      {label : Spanned String} {body : Stmt} {ending : Ending} :
      Executes context outside rounds state (some label.node) body ending after →
      Executes context outside rounds state outer (.labeled span label body)
        (ending.ofLabeled label.node) after
  | breakTo {state : TreeState} {outer : Option String} {span : Span}
      {label : Option (Spanned String)} :
      Executes context outside rounds state outer (.breakTo span label)
        (.breaks (label.map Spanned.node)) state
  | continueTo {state : TreeState} {outer : Option String} {span : Span}
      {label : Option (Spanned String)} :
      Executes context outside rounds state outer (.continueTo span label)
        (.continues (label.map Spanned.node)) state
  | returnNothing {state : TreeState} {label : Option String} {span : Span} :
      Executes context outside rounds state label (.returnWith span none) (.returns none) state
  | returnValue {state after : TreeState} {label : Option String} {span : Span} {expr : Expr}
      {word : Word} :
      Evaluates context outside state expr (.word word) after →
      Executes context outside rounds state label (.returnWith span (some expr))
        (.returns (some word)) after
  | empty {state : TreeState} {label : Option String} {span : Span} :
      Executes context outside rounds state label (.empty span) .completes state

/-- Statements are executed one after the other while they complete. -/
inductive ExecutesAll
    (context : CodeContext)
    (outside : Outside)
    (rounds : Nat) :
    TreeState → List Stmt → Ending → TreeState → Prop where
  | nil {state : TreeState} :
      ExecutesAll context outside rounds state [] .completes state
  | goesOn {state middle after : TreeState} {stmt : Stmt} {rest : List Stmt} {ending : Ending} :
      Executes context outside rounds state none stmt .completes middle →
      ExecutesAll context outside rounds middle rest ending after →
      ExecutesAll context outside rounds state (stmt :: rest) ending after
  | ends {state after : TreeState} {stmt : Stmt} {rest : List Stmt} {ending : Ending} :
      Executes context outside rounds state none stmt ending after →
      ending ≠ .completes →
      ExecutesAll context outside rounds state (stmt :: rest) ending after

/-- A statement is executed if there is one. -/
inductive ExecutesIfAny
    (context : CodeContext)
    (outside : Outside)
    (rounds : Nat) :
    TreeState → Option Stmt → Ending → TreeState → Prop where
  | none {state : TreeState} :
      ExecutesIfAny context outside rounds state none .completes state
  | some {state after : TreeState} {stmt : Stmt} {ending : Ending} :
      Executes context outside rounds state none stmt ending after →
      ExecutesIfAny context outside rounds state (some stmt) ending after

/-- A loop goes through the elements that are left, after as many as have been
taken. -/
inductive Loops
    (context : CodeContext)
    (outside : Outside)
    (rounds : Nat) :
    TreeState → Option String → Nat → LoopSource → Option Stmt → Nat → Ending → TreeState →
      Prop where
  | cut {state : TreeState} {label : Option String} {element : Nat} {source : LoopSource}
      {action : Option Stmt} :
      source.isIterator = true →
      Loops context outside rounds state label element source action rounds .cut state
  | exhausted {state after : TreeState} {label : Option String} {element : Nat}
      {source : LoopSource} {action : Option Stmt} {index : Nat} :
      (source.isIterator = true → index < rounds) →
      source.test context.table outside state index = (false, after) →
      Loops context outside rounds state label element source action index .completes after
  | resumes {state tested taken middle after : TreeState} {label : Option String} {element : Nat}
      {source : LoopSource} {action : Option Stmt} {index : Nat} {value : Value}
      {bodyEnding ending : Ending} :
      (source.isIterator = true → index < rounds) →
      source.test context.table outside state index = (true, tested) →
      source.take? context.table outside tested index = some (value, taken) →
      ExecutesIfAny context outside rounds (taken.put element value) action bodyEnding middle →
      bodyEnding.resumes label = true →
      Loops context outside rounds middle label element source action (index + 1) ending after →
      Loops context outside rounds state label element source action index ending after
  | leaves {state tested taken after : TreeState} {label : Option String} {element : Nat}
      {source : LoopSource} {action : Option Stmt} {index : Nat} {value : Value}
      {ending : Ending} :
      (source.isIterator = true → index < rounds) →
      source.test context.table outside state index = (true, tested) →
      source.take? context.table outside tested index = some (value, taken) →
      ExecutesIfAny context outside rounds (taken.put element value) action ending after →
      ending.resumes label = false →
      Loops context outside rounds state label element source action index ending.ofLoop after

end

end CodeContext

end LoopLowering
