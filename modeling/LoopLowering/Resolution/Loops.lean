import LoopLowering.Options.CompilerOptions
import LoopLowering.Resolution.Expressions

namespace LoopLowering

/-!
# Resolving loops

The head of a loop opens a scope of its own. The loop variable is declared
there before the collection is resolved, the loop is classified, and the locals
its strategy needs are declared last.
-/

/-- The issue that a finding about a loop is reported as. -/
def LoopFinding.issue
    (options : CompilerOptions) :
    LoopFinding → Issue
  | .mismatch element declared => .elementNotConvertible element declared
  | .autoboxing element declared true => .boxed options.autoboxing.severity element declared
  | .autoboxing element declared false => .unboxed options.autoboxing.severity element declared

/-- Classify a loop, report on it, and declare the locals it needs. A loop over
something that failed to resolve was reported where that happened. -/
def resolveLoop
    (table : ClassTable)
    (options : CompilerOptions)
    (scope : ScopeId)
    (declared collection : Ty)
    (span : Span)
    (state : MethodState) :
    LoopClassification × MethodState :=
  if declared.isUnknown || collection.isUnknown then
    (.invalid, state)
  else
    match table.classify declared collection with
    | .error cause => (.invalid, state.report (.collectionInvalid cause) span)
    | .ok classified =>
        let reported :=
          classified.findings.foldl
            (fun state finding => state.report (finding.issue options) span) state
        let strategy := classified.shape.strategyFrom reported.scope.nextLocal
        (.resolved ⟨strategy, classified.elementType, classified.conversion⟩,
          reported.mapScope (.declareSynthetics scope classified.shape collection span))

/-- The head of a loop after resolution. -/
structure CheckedLoop where
  element : LocalDecl
  collection : Expr
  scope : ScopeId
  classification : LoopClassification
  state : MethodState

/-- Resolve the head of a loop. -/
def checkLoopHead
    (table : ClassTable)
    (options : CompilerOptions)
    (outer : ScopeId)
    (element : LocalDecl)
    (collection : Expr)
    (state : MethodState) :
    CheckedLoop :=
  let scope := state.scope.nextBlock
  let element := checkDeclaration table scope element (state.mapScope (.openBlock outer))
  let collection := checkExpr table scope collection element.state
  let resolved :=
    resolveLoop table options scope element.type collection.type collection.node.span
      collection.state
  ⟨element.node, collection.node, scope, resolved.1, resolved.2⟩

end LoopLowering
