import ShapeCompiler.Proofs.Quiet
import ShapeCompiler.Proofs.Tables

/-!
# Every state of a compilation is a moment

* `expr_walks`, `block_walks`, `function_ends`: the steps walk if the steps of the level below do;
* `ofDepth_walks`: so the steps of every level walk;
* `compile_moment`: whatever the program and the limit, the state in which its compilation ends,
  well or not, is a moment of it.
-/

namespace ShapeCompiler

open Source Code Work

namespace Emit

open Compile (Ends)

variable {s : Setup} {w : Work} {α : Type} {l : Lowering}

/-! ## Instances -/

theorem constructorSubject_walks (cls : DeclId) : Compile.Walks s (constructorSubject cls) := by
  refine .bind (Compile.asks_walks _) fun ctor => ?_
  cases ctor with
  | some ctor => exact .pure _
  | none => exact .bind (Compile.asks_walks _) fun _ => .ite (.pure _) (.pure _)

theorem externalConstructor?_walks (subject : Subject) (cls : DeclId) (args : List Operand) :
    Compile.Walks s (externalConstructor? subject cls args) := by
  cases subject with
  | function ctor => exact .bind (Compile.resolve_walks _ _ _) fun _ => .pure _
  | implicitConstructor c => exact .pure _

theorem runConstructor_walks (hl : l.Walks s) (ctorClass cls : DeclId) (this : ValueId)
    (args : List Operand) : Walks s (runConstructor l ctorClass cls this args) := by
  refine .bind (.lift (constructorSubject_walks _)) fun subject => ?_
  cases subject with
  | none => exact .pure _
  | some subject =>
    refine .bind (.lift (externalConstructor?_walks _ _ _)) fun external => ?_
    split
    · exact .discard (callExternal_walks hl _ _ _ _)
    · exact .bind (.lift (hl.body_walks _ _ _)) fun _ => .discard (callCompiled_walks hl _ _ _)

theorem construct_walks (hl : l.Walks s) (cls : DeclId) (args : List Operand) :
    Walks s (construct l cls args) := by
  have rest (obj : ValueId) : Walks s (do
      runConstructor l cls cls obj args
      return .boxed obj (.instanceOf cls) : Emit Operand) :=
    .bind (runConstructor_walks hl _ _ _ _) fun _ => .pure _
  refine .bind (.lift (Compile.layoutOf_walks cls)) fun layout => .draft_bind fun obj => ?_
  exact .ite (.bind (installTable_walks hl obj cls) fun _ => rest obj) (rest obj)

theorem initializeProperty_walks (hl : l.Walks s) (owner : DeclId) (layout : ClassLayout)
    (this : ValueId) (d : Decl) (start : ExprId) :
    Walks s (initializeProperty l owner layout this d start) := by
  unfold initializeProperty
  split
  · exact .bind (.text _) fun _ => .bind (.declName _) fun _ => .invalid _
  · exact .bind (hl.expr _) fun _ => .bind (hl.coerced _ _) fun _ => storeField_walks _ _ _ _

theorem runInitializers_walks (hl : l.Walks s) (owner : DeclId) :
    Walks s (runInitializers l owner) := by
  refine .bind .program fun p => .bind (.asks _) fun c => .ite ?_ (.pure _)
  refine .bind receiver_walks fun _ => .bind (boxed_walks _) fun _ => .bind .get fun _ =>
    .bind (.lift (Compile.layoutOf_walks _)) fun _ => .forM (fun m => .bind (.asks _) fun d => ?_) _
  split
  · exact initializeProperty_walks hl _ _ _ _ _
  · exact .pure _

theorem callBaseConstructor_walks (hl : l.Walks s) (args : List Operand) :
    Walks s (callBaseConstructor l args) := by
  refine .bind .get fun f => ?_
  split
  · exact .unsupported _
  · refine .bind (.asks _) fun c => ?_
    split
    · exact .bind (.declName _) fun _ => .invalid _
    · exact .bind receiver_walks fun _ => .bind (boxed_walks _) fun _ => .bind .get fun _ =>
        .bind (runConstructor_walks hl _ _ _ _) fun _ => .bind (runInitializers_walks hl _) fun _ =>
          nullValue_walks _

theorem forwardedArgument_walks (cls param : DeclId) : Walks s (forwardedArgument cls param) := by
  refine .bind (.asks _) fun d => .bind .get fun f => ?_
  split
  · exact .bind (.text _) fun _ => .draft_bind fun _ => .pure _
  · exact .bind (.text _) fun _ => .bind (.declName _) fun _ => .invalid _

theorem implicitConstructor_walks (hl : l.Walks s) (cls : DeclId) :
    Walks s (implicitConstructor l cls) :=
  .bind (.asks _) fun _ => .ite (runInitializers_walks hl cls)
    (.bind (.asks _) fun _ => .bind (.mapM (forwardedArgument_walks cls) _) fun _ =>
      .discard (callBaseConstructor_walks hl _))

/-! ## Properties -/

theorem noProperty_walks (info : Info) (n : Name) : Walks s (noProperty info n : Emit α) :=
  .bind (.infoName _) fun _ => .bind (.text _) fun _ => .invalid _

theorem findMember_walks (chain : List DeclId) (n : Name) (kind : FunctionKind) :
    Compile.Walks s (findMember chain n kind) := Compile.asks_walks _

theorem readInstance_walks (hl : l.Walks s) (object : Operand) (cls : DeclId) (n : Name) :
    Walks s (readInstance l object cls n) := by
  refine .bind (.asks _) fun chain => .bind (.lift (findMember_walks _ _ _)) fun getter => ?_
  split
  · exact callDecl_walks hl _ _ _
  · refine .bind (.lift (Compile.fieldRef_walks _ _)) fun field => ?_
    split
    · exact loadRef_walks _ _ _
    · refine .bind (.lift (findMember_walks _ _ _)) fun method => ?_
      split
      · exact boundMethod_walks hl _ _ _
      · exact noProperty_walks _ _

theorem readField_walks (object : Operand) (n : Name) : Walks s (readField object n) := by
  refine .bind (.lift (Compile.fieldRef_walks _ _)) fun field => ?_
  split
  · exact loadRef_walks _ _ _
  · exact noProperty_walks _ _

theorem unwrap_walks (hl : l.Walks s) (v : Operand) (shape : ShapeId) :
    Walks s (unwrap l v shape) :=
  .bind (.lift (Compile.unionShape_walks _)) fun _ => unionExtract_walks hl _ _ _

theorem readProperty_walks (hl : l.Walks s) (v : Operand) (n : Name) :
    Walks s (readProperty l v n) := by
  refine .bind (toBoxed_walks v) fun object => ?_
  split
  · exact readInstance_walks hl _ _ _
  · exact .bind (.text _) fun _ => .unsupported _
  · refine .bind (.lift (optionalShape?_walks _)) fun shape => ?_
    split
    · exact .bind (unwrap_walks hl _ _) fun _ => hl.readProperty _ _
    · exact readField_walks _ _

theorem writeField_walks (hl : l.Walks s) (object : Operand) (n : Name) (value : Operand) :
    Walks s (writeField l object n value) := by
  refine .bind (.lift (Compile.fieldRef_walks _ _)) fun field => ?_
  split
  · exact noProperty_walks _ _
  · exact .bind (hl.coerced _ _) fun _ => .bind (storeField_walks _ _ _ _) fun _ => .pure _

theorem setter?_walks (info : Info) (n : Name) : Compile.Walks s (setter? info n) := by
  unfold setter?
  split
  · exact .bind (Compile.asks_walks _) fun _ => .bind (findMember_walks _ _ _) fun _ => .pure _
  · exact .pure _

theorem writeProperty_walks (hl : l.Walks s) (v : Operand) (n : Name) (value : Operand) :
    Walks s (writeProperty l v n value) := by
  refine .bind (toBoxed_walks v) fun object => .bind (.lift (setter?_walks _ _)) fun setter => ?_
  split
  · exact .bind (toBoxed_walks _) fun _ => .bind (.discard (callDecl_walks hl _ _ _))
      fun _ => .pure _
  · refine .bind (.lift (optionalShape?_walks _)) fun shape => ?_
    split
    · exact .bind (unwrap_walks hl _ _) fun _ => hl.writeProperty _ _ _
    · exact writeField_walks hl _ _ _

theorem memberOwner_walks : Walks s memberOwner := by
  refine .bind .get fun f => ?_
  split
  · exact .pure _
  · exact .unsupported _

theorem readParent_walks (hl : l.Walks s) (n : Name) : Walks s (readParent l n) := by
  refine .bind memberOwner_walks fun owner => .bind receiver_walks fun this => .bind .get fun f =>
    .bind (.asks _) fun chain => .bind (.lift (findMember_walks _ _ _)) fun getter => ?_
  split
  · exact callDecl_walks hl _ _ _
  · refine .bind (.lift (findMember_walks _ _ _)) fun method => ?_
    split
    · exact boundMethod_walks hl _ _ _
    · exact hl.readProperty _ _

theorem callParentMethod_walks (hl : l.Walks s) (n : Name) (args : List Operand) :
    Walks s (callParentMethod l n args) := by
  refine .bind memberOwner_walks fun owner => .bind (.asks _) fun chain =>
    .bind (.lift (findMember_walks _ _ _)) fun method => ?_
  split
  · exact .bind (.declName _) fun _ => .bind (.text _) fun _ => .invalid _
  · exact .bind receiver_walks fun _ => .bind .get fun _ => callDecl_walks hl _ _ _

theorem findStatic_walks (n : Name) (chain : List DeclId) :
    Compile.Walks s (findStatic n chain) := by
  induction chain with
  | nil => exact .pure _
  | cons c rest ih =>
    refine .bind (Compile.asks_walks _) fun prop => ?_
    cases prop with
    | some prop => exact .pure _
    | none => exact ih

theorem findStaticMethod_walks (n : Name) (chain : List DeclId) :
    Compile.Walks s (findStaticMethod n chain) :=
  .bind Compile.program_walks fun _ => .bind (findMember_walks _ _ _) fun _ => .pure _

theorem staticVariable_walks (prop : DeclId) : Walks s (staticVariable prop) :=
  .bind (.lift (Compile.staticGlobal_walks _)) fun _ => .bind (.asks _) fun _ =>
    .bind (closedInfoOf_walks _) fun _ => .pure _

theorem storeStatic_walks (hl : l.Walks s) (g : GlobalId) (info : Info) (value : Operand) :
    Walks s (storeStatic l g info value) :=
  .bind (hl.coerced _ _) fun _ => .draft_bind fun _ => .draft_bind fun _ => .pure _

theorem readStatic_walks (hl : l.Walks s) (cls : DeclId) (n : Name) :
    Walks s (readStatic l cls n) := by
  refine .bind (.asks _) fun chain => .bind (.lift (findStatic_walks _ _)) fun prop => ?_
  cases prop with
  | some prop =>
    exact .bind (staticVariable_walks _) fun _ => .draft_bind fun _ => .bind (.text _) fun _ =>
      .draft_bind fun _ => .pure _
  | none =>
    refine .bind (.lift (findStaticMethod_walks _ _)) fun method => ?_
    cases method with
    | some m => exact staticMethodValue_walks hl m
    | none => exact .bind (.declName _) fun _ => .bind (.text _) fun _ => .invalid _

theorem writeStatic_walks (hl : l.Walks s) (cls : DeclId) (n : Name) (value : Operand) :
    Walks s (writeStatic l cls n value) := by
  refine .bind (.asks _) fun chain => .bind (.lift (findStatic_walks _ _)) fun prop => ?_
  cases prop with
  | some prop => exact .bind (staticVariable_walks _) fun _ => storeStatic_walks hl _ _ _
  | none => exact .bind (.declName _) fun _ => .bind (.text _) fun _ => .invalid _

theorem callStatic_walks (hl : l.Walks s) (cls : DeclId) (n : Name) (args : List Operand) :
    Walks s (callStatic l cls n args) := by
  refine .bind (.asks _) fun chain => .bind (.lift (findStaticMethod_walks _ _)) fun method => ?_
  cases method with
  | some m => exact callDecl_walks hl _ _ _
  | none => exact .bind (readStatic_walks hl _ _) fun _ => callValue_walks hl _ _

theorem initializeStatics_walks (hl : l.Walks s) (cls : DeclId) :
    Walks s (initializeStatics l cls) := by
  refine .bind (.asks _) fun c => .forM (fun m => .bind (.asks _) fun d => ?_) _
  split
  · exact .bind (staticVariable_walks _) fun _ => .bind (hl.expr _) fun _ =>
      .discard (storeStatic_walks hl _ _ _)
  · exact .pure _

/-! ## Operators -/

theorem readName_walks (hl : l.Walks s) (n : Name) : Walks s (readName l n) := by
  refine .bind (.text n) fun text => .bind (lookup_walks n) fun binding => ?_
  split
  · exact .draft_bind fun _ => .pure _
  · exact .draft_bind fun _ => .draft_bind fun _ => .pure _
  · exact functionValue_walks hl _
  · exact .unsupported _
  · exact .invalid _

theorem variablePlace_walks (n : Name) : Walks s (variablePlace n) := by
  refine .bind (lookup_walks n) fun binding => ?_
  split
  · exact .pure _
  · exact .draft_bind fun _ => .pure _
  · exact .bind (.text n) fun _ => .invalid _
  · exact .bind (.text n) fun _ => .invalid _
  · exact .bind (.text n) fun _ => .invalid _

theorem checkRebinding_walks (n : Name) (current new : Info) :
    Walks s (checkRebinding n current new) := by
  unfold checkRebinding
  split
  · exact .bind (.lift Compile.registry_walks) fun _ => .ite (.pure _)
      (.bind (.text n) fun _ => .unsupported _)
  · exact .pure _

theorem assignName_walks (hl : l.Walks s) (n : Name) (v : Operand) :
    Walks s (assignName l n v) :=
  .bind (variablePlace_walks n) fun _ => .bind (checkRebinding_walks _ _ _) fun _ =>
    .bind (hl.coerced _ _) fun _ => .draft_bind fun _ => .pure _

theorem className?_walks (e : ExprId) : Walks s (className? e) := by
  refine .bind .program fun p => ?_
  split
  · refine .bind (lookup_walks _) fun binding => ?_
    split
    · exact .pure _
    · exact .pure _
  · exact .pure _

theorem assign_walks (hl : l.Walks s) (target value : ExprId) :
    Walks s (assign l target value) := by
  refine .bind .program fun p => ?_
  split
  · exact .bind (hl.expr _) fun _ => assignName_walks hl _ _
  · refine .bind (className?_walks _) fun cls => ?_
    split
    · exact .bind (hl.expr _) fun _ => writeStatic_walks hl _ _ _
    · exact .bind (hl.expr _) fun _ => .bind (toBoxed_walks _) fun _ => .bind (hl.expr _) fun _ =>
        hl.writeProperty _ _ _
  · exact .invalid _

theorem truthy_walks (v : Operand) : Walks s (truthy v) := by
  unfold truthy
  split
  · exact raw_walks v
  · exact .bind (raw_walks v) fun _ => .draft_bind fun _ => .draft _
  · exact .bind (raw_walks v) fun _ => .draft_bind fun _ => .draft _
  · refine .bind (.lift (optionalShape?_walks _)) fun shape => ?_
    split
    · exact isPresent_walks _ _
    · exact .ite (.draft _) (.bind (boxed_walks v) fun _ => .draft_bind fun _ => .draft _)

theorem meetsNull_walks (v other : Operand) : Walks s (meetsNull v other) :=
  .ite (.bind (.lift (optionalShape?_walks _)) fun _ => .pure _) (.pure _)

theorem comparedWithNull?_walks (a b : Operand) : Walks s (comparedWithNull? a b) :=
  .bind (meetsNull_walks a b) fun _ => .ite (.pure _)
    (.bind (meetsNull_walks b a) fun _ => .ite (.pure _) (.pure _))

theorem equal_walks (a b : Operand) : Walks s (equal a b) := by
  refine .bind (comparedWithNull?_walks a b) fun found => ?_
  split
  · exact isAbsent_walks _
  · dsimp only
    split
    · exact .bind (raw_walks a) fun _ => .bind (raw_walks b) fun _ => .draft _
    · exact .bind (boxed_walks a) fun _ => .bind (boxed_walks b) fun _ => .draft _

theorem numeric_walks (op : Source.BinaryOp) (a b : Operand) : Walks s (numeric op a b) := by
  unfold numeric
  split
  · exact .bind (raw_walks a) fun _ => .bind (raw_walks b) fun _ => .draft_bind fun _ => .pure _
  · exact .bind (raw_walks a) fun _ => .bind (raw_walks b) fun _ => .draft_bind fun _ => .pure _
  · exact .pure _

theorem unsupportedBinary_walks (op : Source.BinaryOp) (a b : Operand) :
    Walks s (unsupportedBinary op a b : Emit α) :=
  .bind (.infoName _) fun _ => .bind (.infoName _) fun _ => .unsupported _

theorem strictBinary_walks (op : Source.BinaryOp) (a b : Operand) :
    Walks s (strictBinary op a b) := by
  unfold strictBinary
  split
  · exact .bind (equal_walks a b) fun _ => .pure _
  · exact .bind (equal_walks a b) fun _ => .draft_bind fun _ => .pure _
  · exact .bind (raw_walks a) fun _ => .bind (raw_walks b) fun _ => .draft_bind fun _ => .pure _
  · refine .bind (numeric_walks _ a b) fun v => ?_
    split
    · exact .pure _
    · exact unsupportedBinary_walks _ _ _
  · exact unsupportedBinary_walks _ _ _

theorem logical_walks (hl : l.Walks s) (isAnd : Bool) (lhs rhs : ExprId) :
    Walks s (logical l isAnd lhs rhs) := by
  have rest (result : ValueId) (rhsBlock done : BlockId) : Walks s (do
      Draft.moveTo rhsBlock
      let right ← truthy (← l.expr rhs)
      Draft.store right result
      Draft.br done
      Draft.moveTo done
      return .raw (← Draft.load .i1 result "logic") .boolean : Emit Operand) :=
    .draft_bind fun _ => .bind (hl.expr _) fun _ => .bind (truthy_walks _) fun _ =>
      .draft_bind fun _ => .draft_bind fun _ => .draft_bind fun _ => .draft_bind fun _ => .pure _
  refine .draft_bind fun result => .bind (hl.expr _) fun _ => .bind (truthy_walks _) fun left =>
    .draft_bind fun _ => .draft_bind fun rhsBlock => .draft_bind fun done => ?_
  exact .ite (.draft_bind fun _ => rest result rhsBlock done)
    (.draft_bind fun _ => rest result rhsBlock done)

theorem binary_walks (hl : l.Walks s) (op : Source.BinaryOp) (lhs rhs : ExprId) :
    Walks s (binary l op lhs rhs) := by
  unfold binary
  split
  · exact logical_walks hl _ _ _
  · exact logical_walks hl _ _ _
  · exact .bind (hl.expr _) fun _ => .bind (hl.expr _) fun _ => strictBinary_walks _ _ _

theorem updateTarget_walks (hl : l.Walks s) (operand : ExprId) :
    Walks s (updateTarget l operand) := by
  refine .bind .program fun p => ?_
  split
  · exact .bind (readName_walks hl _) fun _ => .pure _
  · exact .bind (hl.expr _) fun _ => .bind (toBoxed_walks _) fun _ =>
      .bind (hl.readProperty _ _) fun _ => .pure _
  · exact .invalid _

theorem update_walks (hl : l.Walks s) (increment before : Bool) (operand : ExprId) :
    Walks s (update l increment before operand) := by
  refine .bind (updateTarget_walks hl operand) fun target =>
    .ite (.bind (.infoName _) fun _ => .unsupported _) (.bind (raw_walks _) fun _ =>
      .draft_bind fun _ => .draft_bind fun _ => ?_)
  dsimp only
  split
  · exact .bind (.discard (assignName_walks hl _ _)) fun _ => .pure _
  · exact .bind (.discard (hl.writeProperty _ _ _)) fun _ => .pure _

theorem negate_walks (v : Operand) : Walks s (negate v) :=
  .ite (.bind (raw_walks v) fun _ => .draft_bind fun _ => .pure _)
    (.bind (.infoName _) fun _ => .unsupported _)

theorem unary_walks (hl : l.Walks s) (op : UnaryOp) (operand : ExprId) :
    Walks s (unary l op operand) := by
  cases op with
  | neg => exact .bind (hl.expr _) fun _ => negate_walks _
  | not =>
    exact .bind (hl.expr _) fun _ => .bind (truthy_walks _) fun _ => .draft_bind fun _ => .pure _
  | _ => exact update_walks hl _ _ _

/-! ## Expressions -/

theorem callFound_walks (hl : l.Walks s) (this : Operand) (n : Name) (args : List ExprId)
    (method : Option (DeclId × DeclId)) : Walks s (callFound l this n args method) := by
  unfold callFound
  split
  · refine .bind (hl.exprs _) fun _ => .bind (virtualSlot_walks hl _ _) fun slot => ?_
    split
    · exact virtualCall_walks hl _ _ _ _ _
    · exact callDecl_walks hl _ _ _
  · exact .bind (hl.readProperty _ _) fun _ => .bind (hl.exprs _) fun _ => callValue_walks hl _ _

theorem objectCall_walks (hl : l.Walks s) (object : ExprId) (n : Name) (args : List ExprId) :
    Walks s (objectCall l object n args) := by
  refine .bind (hl.expr _) fun _ => .bind (toBoxed_walks _) fun this => ?_
  dsimp only
  split
  · exact .bind (.asks _) fun _ => .bind (.lift (findMember_walks _ _ _)) fun _ =>
      .bind (.pure _) fun _ => callFound_walks hl this n args _
  · exact .bind (.pure _) fun _ => callFound_walks hl this n args _

theorem memberCall_walks (hl : l.Walks s) (object : ExprId) (n : Name) (args : List ExprId) :
    Walks s (memberCall l object n args) := by
  refine .bind .program fun p => ?_
  split
  · exact .bind (hl.exprs _) fun _ => callParentMethod_walks hl _ _
  · refine .bind (className?_walks _) fun cls => ?_
    split
    · exact .bind (hl.exprs _) fun _ => callStatic_walks hl _ _ _
    · exact objectCall_walks hl _ _ _

theorem nameCall_walks (hl : l.Walks s) (n : Name) (args : List ExprId) (target : Option DeclId) :
    Walks s (nameCall l n args target) := by
  refine .bind (lookup_walks n) fun binding => ?_
  split
  · exact .bind (hl.exprs _) fun _ => callDecl_walks hl _ _ _
  · exact .bind (readName_walks hl _) fun _ => .bind (hl.exprs _) fun _ => callValue_walks hl _ _
  · exact .bind (readName_walks hl _) fun _ => .bind (hl.exprs _) fun _ => callValue_walks hl _ _
  · exact .bind (.text n) fun _ => .unsupported _
  · exact .bind (hl.exprs _) fun _ => callDecl_walks hl _ _ _
  · exact .bind (.text n) fun _ => .invalid _

theorem call_walks (hl : l.Walks s) (callee : ExprId) (args : List ExprId)
    (target : Option DeclId) : Walks s (call l callee args target) := by
  refine .bind .program fun p => ?_
  split
  · exact .bind (hl.exprs _) fun _ => callBaseConstructor_walks hl _
  · exact memberCall_walks hl _ _ _
  · exact nameCall_walks hl _ _ _
  · exact .bind (hl.expr _) fun _ => .bind (hl.exprs _) fun _ => callValue_walks hl _ _

theorem property_walks (hl : l.Walks s) (object : ExprId) (n : Name) :
    Walks s (property l object n) := by
  refine .bind .program fun p => ?_
  split
  · exact readParent_walks hl _
  · refine .bind (className?_walks _) fun cls => ?_
    split
    · exact readStatic_walks hl _ _
    · exact .bind (hl.expr _) fun _ => hl.readProperty _ _

theorem propertyValues_walks (hl : l.Walks s) (fields : List (Name × ExprId))
    (values : List (Name × Operand)) : Walks s (propertyValues l fields values) := by
  induction fields generalizing values with
  | nil => exact .pure _
  | cons field rest ih =>
    exact .bind (hl.expr _) fun _ => .bind (toBoxed_walks _) fun _ => ih _

theorem objectLiteral_walks (hl : l.Walks s) (fields : List (Name × ExprId)) :
    Walks s (objectLiteral l fields) :=
  .bind (propertyValues_walks hl fields []) fun _ =>
    .bind (.lift (Compile.shapeOfObject_walks _)) fun _ =>
      .bind (.lift (Compile.objectShape_walks _)) fun _ => .draft_bind fun _ =>
        .bind (.forM (fun ((_, _), _) => storeField_walks _ _ _ _) _) fun _ => .pure _

/-- One case per kind of expression. -/
theorem exprKind_walks (hl : l.Walks s) (kind : ExprKind) : Walks s (exprKind l kind) := by
  cases kind with
  | number x => exact .draft_bind fun _ => .pure _
  | text t => exact .bind (.text _) fun _ => .draft_bind fun _ => .pure _
  | bool b => exact .draft_bind fun _ => .pure _
  | null => exact nullValue_walks _
  | undefined => exact nullValue_walks _
  | ident n => exact readName_walks hl n
  | receiver => exact receiver_walks
  | parent => exact .unsupported _
  | property object n => exact property_walks hl _ _
  | call callee args target => exact call_walks hl _ _ _
  | construct cls args => exact .bind (hl.exprs _) fun _ => construct_walks hl _ _
  | function d => exact functionValue_walks hl d
  | object fields => exact objectLiteral_walks hl _
  | assign target value => exact assign_walks hl _ _
  | binary op lhs rhs => exact binary_walks hl _ _ _
  | unary op operand => exact unary_walks hl _ _
  | convert e ty => exact .bind (hl.expr _) fun _ => .bind (infoOf_walks _) fun _ => hl.coerce _ _

theorem expr_walks (hl : l.Walks s) (id : ExprId) : Walks s (expr l id) := by
  obtain ⟨depth, rfl⟩ := hl.isLevel
  exact .program_bind (locate_walks (exprKind_walks hl _) fun moment fails => .expr id moment fails)

/-! ## Statements -/

theorem newVariable_walks (decl : DeclId) (n : Name) (info : Info) (value : ValueId) :
    Walks s (newVariable decl n info value) := by
  refine .bind (.text n) fun _ => .bind atTop_walks fun _ => .ite ?_ ?_
  · exact .bind (.lift ⟨fun _ => Compile.addGlobal_ends fun _ _ _ _ _ _ => trivial⟩) fun _ =>
      .draft_bind fun _ => .draft_bind fun _ => bindName_walks _ _
  · exact .bind (newCell_walks _ _) fun _ => .modify fun _ => ⟨rfl, rfl⟩

theorem bind_walks (hl : l.Walks s) (decl : DeclId) (init : Option ExprId) :
    Walks s (Emit.bind l decl init) := by
  refine .bind (.asks _) fun d => ?_
  split
  · refine .bind (.optionMapM infoOf_walks _) fun declared => .bind ?_ fun start =>
      .bind (hl.coerced _ _) fun _ => .bind (newVariable_walks _ _ _ _) fun _ => refreshSites_walks
    cases init with
    | none => exact nullValue_walks _
    | some e => exact hl.expr e
  · exact .bind (.declName _) fun _ => .invalid _

/-- What is inferred of a result is set only where nothing is declared. -/
theorem returnValue_walks (hl : l.Walks s) (v : Option Operand) : Walks s (returnValue l v) := by
  have start : Walks s (v.elim (nullValue .void) pure) := by
    cases v with
    | none => exact nullValue_walks _
    | some v => exact .pure v
  have last (v : Operand) (target : Info) : Walks s (do
      let p ← l.coerced v target
      Draft.ret (some p) : Emit Unit) :=
    .bind (hl.coerced _ _) fun _ => .draft _
  refine .get_bind fun {w} f moment grounded => ?_
  cases isValue : f.returning with
  | entry => exact (Walks.draft _).ends moment grounded
  | discard => exact (Walks.draft_bind fun _ => .draft _).ends moment grounded
  | value declared inferred =>
    refine bind_ends (start.ends moment grounded) fun v f' w' there onward => ?_
    have moment' := moment.later there.later
    cases declared with
    | none =>
      let target := (none <|> inferred).getD (firstReturned v.info)
      have grounded' : { f' with returning := .value none (some target) : Frame }.Grounded w' :=
        onward.grounded
      refine ((last v _).ends moment' grounded').mono fun _ _ _ after =>
        ⟨after.grounded, after.declared.trans ?_⟩
      rw [isValue]
      rfl
    | some info =>
      exact ((last v _).ends moment' onward.grounded).mono fun _ _ _ after => onward.trans after

theorem nested_walks (hl : l.Walks s) (stmts : List StmtId) : Walks s (nested l stmts) :=
  .bind .get fun _ => .bind (.modify fun _ => ⟨rfl, rfl⟩) fun _ => .bind (hl.block _) fun _ =>
    .modify fun _ => ⟨rfl, rfl⟩

theorem brUnlessClosed_walks (target : BlockId) : Walks s (brUnlessClosed target) :=
  .bind isClosed_walks fun _ => .ite (.pure _) (.draft _)

theorem branch_walks (hl : l.Walks s) (cond : ExprId) (thenStmts elseStmts : List StmtId) :
    Walks s (branch l cond thenStmts elseStmts) :=
  .bind (hl.expr _) fun _ => .bind (truthy_walks _) fun _ => .draft_bind fun _ =>
    .draft_bind fun _ => .draft_bind fun _ => .draft_bind fun _ => .draft_bind fun _ =>
      .bind (nested_walks hl _) fun _ => .bind (brUnlessClosed_walks _) fun _ =>
        .draft_bind fun _ => .bind (nested_walks hl _) fun _ =>
          .bind (brUnlessClosed_walks _) fun _ => .draft _

theorem loop_walks (hl : l.Walks s) (cond : ExprId) (body : List StmtId) :
    Walks s (loop l cond body) :=
  .draft_bind fun _ => .draft_bind fun _ => .draft_bind fun _ => .draft_bind fun _ =>
    .draft_bind fun _ => .bind (hl.expr _) fun _ => .bind (truthy_walks _) fun _ =>
      .draft_bind fun _ => .draft_bind fun _ => .bind (nested_walks hl _) fun _ =>
        .bind (brUnlessClosed_walks _) fun _ => .draft _

/-- One case per kind of statement. -/
theorem stmtKind_walks (hl : l.Walks s) (kind : StmtKind) : Walks s (stmtKind l kind) := by
  cases kind with
  | bind decl init => exact bind_walks hl _ _
  | expr e => exact .discard (hl.expr e)
  | ret v => exact .bind (.optionMapM hl.expr v) fun _ => returnValue_walks hl _
  | branch cond thenStmts elseStmts => exact branch_walks hl _ _ _
  | loop cond body => exact loop_walks hl _ _
  | block body => exact nested_walks hl _
  | function d => exact .pure _
  | classDecl d => exact initializeStatics_walks hl d

theorem stmt_walks (hl : l.Walks s) (id : StmtId) : Walks s (stmt l id) := by
  obtain ⟨depth, rfl⟩ := hl.isLevel
  exact .program_bind (locate_walks (stmtKind_walks hl _) fun moment fails => .stmt id moment fails)

theorem stmts_walks (hl : l.Walks s) (ids : List StmtId) : Walks s (stmts l ids) := by
  induction ids with
  | nil => exact .pure _
  | cons id rest ih =>
    exact .bind isClosed_walks fun _ => .ite (.pure _) (.bind (stmt_walks hl id) fun _ => ih)

theorem hoist_walks (body : List StmtId) : Walks s (hoist body) := by
  refine .filterMapM (fun id => .bind .program fun p => ?_) body
  split
  · exact .bind (.asks _) fun _ => .bind (bindName_walks _ _) fun _ => .pure _
  · exact .bind (.asks _) fun _ => .bind (bindName_walks _ _) fun _ => .pure _
  · exact .pure _

theorem block_walks (hl : l.Walks s) (body : List StmtId) : Walks s (block l body) :=
  .bind (hoist_walks body) fun _ => .bind (openBlock_walks _) fun _ =>
    .bind (stmts_walks hl body) fun _ => closeBlock_walks

/-! ## Bodies of functions -/

theorem bindCell_walks (n : Name) (var : Option DeclId) (visible : Bool) (cell : ValueId)
    (info : Info) : Walks s (bindCell n var visible cell info) := by
  refine .modify fun f => ?_
  cases var <;> cases visible <;> exact ⟨rfl, rfl⟩

theorem bindSlot_walks (e : Environment) (params : List Info) (site : Site) (slot : EnvSlot)
    (i : Nat) : Walks s (bindSlot e params site slot i) := by
  unfold bindSlot
  dsimp only
  split
  · exact .bind (loadField_walks _ _ _ _) fun _ => .bind .get fun _ => .modify fun _ => ⟨rfl, rfl⟩
  · refine .bind (.text _) fun _ => .bind (loadField_walks _ _ _ _) fun _ => ?_
    split
    all_goals exact bindCell_walks _ _ _ _ _

/-- The environment of the frame is set once it is known. -/
theorem prologue_walks (env : EnvId) (params : List Info) (site : Site) :
    Walks s (prologue env params site) := by
  refine ⟨fun {w f} moment grounded => ?_⟩
  unfold prologue
  rw [lift_bind_apply]
  refine Compile.env_bind fun e known => ?_
  have rest := Walks.forM (fun entry => bindSlot_walks (s := s) e params site entry.1 entry.2)
    e.slots.zipIdx
  have grounded' : { f with env := some ⟨env, Draft.param 0⟩ : Frame }.Grounded w := by
    rintro _ ⟨⟩
    simp [known]
  exact (rest.ends moment grounded').mono fun _ _ _ last => ⟨last.grounded, last.declared⟩

theorem runDefault_walks (hl : l.Walks s) (param : DeclId) : Walks s (runDefault l param) := by
  refine .bind (.asks _) fun q => ?_
  split
  · exact .pure _
  · refine .bind (.asks _) fun d => .bind .get fun f => ?_
    split
    · exact .bind (.text _) fun _ => .draft_bind fun _ => .bind (isAbsent_walks _) fun _ =>
        .draft_bind fun _ => .draft_bind fun _ => .draft_bind fun _ => .draft_bind fun _ =>
          .bind (hl.expr _) fun _ => .bind (hl.coerced _ _) fun _ => .draft_bind fun _ =>
            .draft_bind fun _ => .draft _
    · exact .pure _

theorem startConstructor_walks (hl : l.Walks s) (f : FunctionDecl) :
    Walks s (startConstructor l f) := by
  unfold startConstructor
  split
  · exact .bind (.asks _) fun _ => .ite (runInitializers_walks hl _) (.pure _)
  · exact .pure _

theorem functionBody_walks (hl : l.Walks s) (d : DeclId) : Walks s (functionBody l d) := by
  refine .bind (.asks _) fun f => .bind (.forM (runDefault_walks hl) _) fun _ =>
    .bind (startConstructor_walks hl f) fun _ => ?_
  split
  · exact hl.block _
  · exact .bind (hl.expr _) fun _ => returnValue_walks hl _
  · exact .bind (.declName _) fun _ => .invalid _

theorem wholeBody_walks (hl : l.Walks s) (spec : Specialization) (env : EnvId) (site : Site) :
    Walks s (wholeBody l spec env site) := by
  have last : Walks s (do unless ← isClosed do returnValue l none : Emit Unit) :=
    .bind isClosed_walks fun _ => .ite (.pure _) (returnValue_walks hl none)
  refine .bind (prologue_walks _ _ _) fun _ => ?_
  dsimp only
  split
  · exact .bind (functionBody_walks hl _) fun _ => last
  · exact .bind (implicitConstructor_walks hl _) fun _ => last

end Emit

namespace Compile

variable {s : Setup} {w : Work} {l : Lowering}

theorem returning_walks (subject : Subject) (b : Bindings) : Walks s (returning subject b) := by
  cases subject with
  | implicitConstructor c => exact .pure _
  | function d =>
    refine .bind (asks_walks _) fun f => ?_
    split
    · exact .pure _
    · exact .pure _
    · exact .bind (.optionMapM (infoOf_walks b) _) fun _ => .pure _

theorem ownerOf_walks (subject : Subject) : Walks s (ownerOf subject) := by
  cases subject with
  | implicitConstructor c => exact .pure _
  | function d => exact .bind (asks_walks _) fun _ => .pure _

theorem memberOwnerOf_walks (subject : Subject) (site : Site) :
    Walks s (memberOwnerOf subject site) := by
  cases subject with
  | implicitConstructor c => exact .pure _
  | function d => exact .bind (asks_walks _) fun _ => .pure _

/-- A body keeps what is declared of its result. -/
theorem body_ends (hl : l.Walks s) (moment : Moment s w) (spec : Specialization) (func : FuncId)
    (env : EnvId) (returning : Returning) : Ends s w (body l spec func env returning)
      fun result _ => result.2.declared? = returning.declared? := by
  refine ((siteOf_walks _).ends moment).bind fun site w₁ there₁ _ => .get_bind ?_
  have moment₁ := moment.later there₁.later
  refine ((memberOwnerOf_walks _ _).ends moment₁).bind fun owner w₂ there₂ _ => ?_
  refine (((Emit.wholeBody_walks hl spec env site).ends (moment₁.later there₂.later) ?_).mono
    fun _ _ _ onward => onward.declared).bind fun result _ _ declared => .pure declared
  rintro _ ⟨⟩

theorem symbolOf_walks (key : FunctionKey) : Walks s (symbolOf key) := by
  refine .bind program_walks fun _ => .bind (ownerOf_walks _) fun _ => ?_
  split
  · exact .ite (.pure _) (.bind (declName_walks _) fun _ => .pure _)
  · exact .pure _

/-- What is not declared of a result is not known before the body is compiled. -/
theorem returning_open {subject : Subject} {b : Bindings} {ret : Returning} {w' : Work}
    (ran : returning subject b s w = .ok ret w') :
    (∃ i, ret.declared? = some i) ∨ ret.info .any = .any ∧ s.program.ResultOpen subject := by
  cases subject with
  | implicitConstructor c =>
    cases ran
    exact .inl ⟨.void, rfl⟩
  | function d =>
    obtain ⟨f, w₁, asked, ran⟩ := of_bind_ok ran
    obtain ⟨_, isFunction⟩ := of_asks_ok asked
    cases kind : f.kind with
    | constructor | setter =>
      simp only [kind] at ran
      cases ran
      exact .inl ⟨.void, rfl⟩
    | _ =>
      simp only [kind] at ran
      obtain ⟨declared, w₂, found, ran⟩ := of_bind_ok ran
      cases ran
      cases isRet : f.ret with
      | none =>
        rw [isRet] at found
        cases found
        exact .inr ⟨rfl, d, f, rfl, isFunction, isRet, by simp [kind], by simp [kind]⟩
      | some t =>
        rw [isRet] at found
        change (infoOf b t >>= fun i => pure (some i)) s w₁ = _ at found
        obtain ⟨i, w₃, _, found⟩ := of_bind_ok found
        cases found
        exact .inl ⟨i, rfl⟩

/-- A body is compiled once per key. It is recorded before it is compiled, and gets its code in a
function that is new. -/
theorem function_ends (hl : l.Walks s) (moment : Moment s w) (spec : Specialization) :
    Ends s w (function l spec) fun c w' => w'.functions.get? spec.key = some c := by
  refine .get_bind ?_
  split
  · rename_i done known
    exact .pure known
  rename_i absent
  refine Since.ends (.after (environmentOf_ends moment _).ran (.refl w)
    fun env w₁ since₁ made₁ => ?_)
  obtain ⟨ran₁, bound⟩ := made₁
  have moment₁ := moment.later since₁.later
  refine .after ((symbolOf_walks _).ends moment₁).ran since₁ fun symbol w₂ since₂ made₂ => ?_
  have there₂ := since₁.trans since₂
  refine .after (declareCompiled_ends symbol 1).ran there₂ fun func w₃ since₃ made₃ => ?_
  obtain ⟨ran₃, _, new, name, declared⟩ := made₃
  have there₃ := there₂.trans since₃
  have moment₃ := moment.later there₃.later
  refine .after ((returning_walks _ _).ends moment₃).ran there₃ fun returning w₄ since₄ ran => ?_
  have there₄ := there₃.trans since₄
  have since₁₄ : Later s w₁ w₄ := ((since₂.trans since₃).trans since₄).later
  have found (c : CompiledFunction) (w' : Work) (later : Later s w₄ w')
      (declares : ∀ i, returning.declared? = some i → c.ret = i) :
      ResultFound s w' w.interfacesInProgress spec.key c :=
    ⟨spec.bindings, returning, w₃, w₄, moment₃, there₃.interfaces, ran.1, later, declares⟩
  -- nothing before compiles a body, so the key is still new
  have same₄ : w₄.functions = w.functions := by
    rw [((returning_quiet _ _).still ran.1).made, ((declareCompiled_mild _ _).calm ran₃).made,
      ((symbolOf_quiet _).still made₂.1).made, (Calm.of_beside (environmentOf_beside ran₁)).made]
  have declared₄ := since₄.keeps _ _ declared
  let c₀ : CompiledFunction := ⟨func, env, spec.key.params, returning.info .any⟩
  have again₄ : ∀ c, w₄.functions.get? spec.key = some c → c.func = c₀.func := by
    intro c known
    rw [same₄, absent] at known
    cases known
  have there₅ : Reaches s w { w₄ with functions := w₄.functions.insert spec.key c₀ } := by
    refine there₄.function absent (since₁₄.extends.registry.declEnv _ _ bound) rfl again₄
      (found c₀ w₄ .same fun i declares => Returning.info_of_declared declares .any) fun start => ?_
    refine (there₄.registered start).insert_new (same₄ ▸ absent) (by simp [c₀, declared₄]) ?_
    intro key' c' known same
    have before := start.declared key' c' (same₄ ▸ known)
    rw [same, there₂.not_there new] at before
    cases before
  dsimp only
  refine Since.bind (Q := fun _ w' => w' = { w₄ with functions := w₄.functions.insert spec.key c₀ })
    ⟨there₅, rfl⟩ ?_
  rintro _ _ - rfl
  refine .after (body_ends hl (moment.later there₅.later) spec func env returning) there₅ ?_
  intro result w₆ since₆ same
  have there₆ := there₅.trans since₆
  have known₆ := since₆.functions _ _ (Table.get?_insert_self w₄.functions spec.key c₀)
  have still := since₆.keeps _ _ declared₄
  refine .define_bind there₆ (there₂.not_there new) still rfl fun w₇ there₇ later₇ same₇ _ => ?_
  have step : Later s w₄ { w₄ with functions := w₄.functions.insert spec.key c₀ } :=
    (Step.function (since₁₄.extends.registry.declEnv _ _ bound) rfl again₄).later
  have later₄₇ : Later s w₄ w₇ := (step.trans since₆.later).trans later₇
  have known₇ : w₇.functions.get? spec.key = some c₀ := same₇ ▸ known₆
  have last := there₇.function
    (c := ⟨func, env, spec.key.params, result.2.info .void⟩) absent
    ((since₁₄.trans later₄₇).extends.registry.declEnv _ _ bound) rfl
    (fun c known => (Option.some.inj (known₇.symm.trans known)) ▸ rfl)
    (found _ w₇ later₄₇ fun i declares => Returning.info_of_declared (same.trans declares) .void)
    fun start => ?_
  · exact ⟨last, Table.get?_insert_self _ _ _⟩
  · refine (there₇.registered start).insert_again known₇ rfl rfl rfl ?_
    rcases returning_open ran.1 with ⟨i, declares⟩ | opened
    · refine .inl ?_
      exact (Returning.info_of_declared (same.trans declares) .void).trans
        (Returning.info_of_declared declares .any).symm
    · exact .inr opened

end Compile

/-! ## All levels -/

namespace Lowering

variable {s : Setup} {l : Lowering}

theorem refuse_walks : refuse.Walks s where
  isLevel := ⟨0, rfl⟩
  compile _ _ _ := .throw trivial
  expr _ := .fail trivial
  block _ := .fail trivial
  coerce _ _ := .fail trivial
  extract _ _ _ := .fail trivial
  readProperty _ _ := .fail trivial
  writeProperty _ _ _ := .fail trivial

theorem next_walks (hl : l.Walks s) : l.next.Walks s where
  isLevel := by
    obtain ⟨depth, rfl⟩ := hl.isLevel
    exact ⟨depth + 1, (ofDepth_succ depth).symm⟩
  compile spec _ moment := Compile.function_ends hl moment spec
  expr := Emit.expr_walks hl
  block := Emit.block_walks hl
  coerce := Emit.coerce_walks hl
  extract := Emit.unionExtract_walks hl
  readProperty := Emit.readProperty_walks hl
  writeProperty := Emit.writeProperty_walks hl

/-- By induction on the number of levels. -/
theorem ofDepth_walks (depth : Nat) : (ofDepth depth).Walks s := by
  induction depth with
  | zero => exact refuse_walks
  | succ depth ih =>
    rw [ofDepth_succ]
    exact next_walks ih

end Lowering

/-! ## Whole programs -/

/-- At the start there is the call of closures only. -/
theorem functionNames_start : startModule.2.functionNames = [closureCallName] := by
  decide

theorem eq_of_functionByName_start {name : String} {f : FuncId}
    (found : startModule.2.functionByName name = some f) :
    name = closureCallName ∧ f = startModule.1.call := by
  obtain ⟨fn, known, isName⟩ := Module.functionByName_spec found
  have here : startModule.2.functionNames[f.raw]? = some name := by
    have there : startModule.2.functions[f.raw]? = some fn := known
    simp [Module.functionNames, there, isName]
  rw [functionNames_start] at here
  obtain ⟨inside, first⟩ := List.getElem?_eq_some_iff.mp here
  obtain isFirst : f.raw = 0 := by simpa using inside
  refine ⟨?_, congrArg FuncId.mk isFirst⟩
  simpa [isFirst] using first.symm

namespace Compile

variable {s : Setup} {l : Lowering}

/-- The state in which a part ends. -/
def endOf {α : Type} (m : Compile α) (s : Setup) (w : Work) : Work :=
  match m s w with
  | .ok _ w' => w'
  | .error _ w' => w'

/-- The step succeeds, and what it gives passes a test. -/
def gives {α : Type} (m : Compile α) (s : Setup) (w : Work) (test : α → Bool) : Bool :=
  match m s w with
  | .ok a _ => test a
  | .error _ _ => false

theorem of_gives {α : Type} {m : Compile α} {w : Work} {test : α → Bool} (h : m.gives s w test) :
    ∃ a, m s w = .ok a (endOf m s w) ∧ test a := by
  unfold gives at h
  split at h
  · rename_i a w' ran
    exact ⟨a, by simp [endOf, ran], h⟩
  · cases h

theorem Ends.reaches {w : Work} {α : Type} {m : Compile α} {Q : α → Work → Prop}
    (h : Ends s w m Q) : Reaches s w (endOf m s w) := by
  unfold endOf
  cases ran : m s w with
  | ok a w' => exact (h.of_ok ran).1
  | error e w' => exact (h.of_error ran).1

theorem Ends.later {w : Work} {α : Type} {m : Compile α} {Q : α → Work → Prop} (h : Ends s w m Q) :
    Later s w (endOf m s w) := h.reaches.later

theorem endOf_bind {α β : Type} (m : Compile α) (f : α → Compile β) (s : Setup) (w : Work) :
    endOf (m >>= f) s w = match m s w with
      | .ok a w' => endOf (f a) s w'
      | .error _ w' => w' := by
  simp only [endOf, bind_apply]
  cases m s w <;> rfl

/-- The statements at the top get their code in a function without a body, or in place of the call
of closures. -/
theorem finishEntry_moment {w : Work} {func : FuncId} {frame : Frame} {whole : Emit Unit}
    (walks : Emit.Walks s whole) (moment : Moment s w) (grounded : frame.Grounded w)
    (once : ∀ w', Reaches s w w' →
      (∀ fn, w'.code.function? func = some fn → fn.body = none) ∨ s.Loose func) :
    Moment s (endOf (do
      let (_, frame) ← whole.run frame
      define func frame.draft.finish
      return func) s w) := by
  rw [endOf_bind]
  have ends := walks.ends moment grounded
  cases ran : whole.run frame s w with
  | error e w' => exact moment.later (ends.of_error ran).1.later
  | ok result w' =>
    have there := (ends.of_ok ran).1
    exact (moment.later there.later).later (Step.define func _ (once w' there)).later

/-- The statements at the top, and the end of the function that holds them. -/
theorem whole_walks (hl : l.Walks s) : Emit.Walks s (do
    l.block s.program.entry
    unless ← Emit.isClosed do Draft.ret none : Emit Unit) :=
  .bind (hl.block _) fun _ => .bind Emit.isClosed_walks fun _ => .ite (.pure _) (.draft _)

theorem entry_moment (p : Program) (r : Resolver) (c : Config) (hl : l.Walks (.of p r c)) :
    Moment (.of p r c) (endOf (entry l) (.of p r c) .start) := by
  have whole := whole_walks hl
  change Moment _ (endOf (do
    let ((_, frame) : Unit × Frame) ← StateT.run _ _
    define (startModule.2.declare c.entryName [] .void).1 frame.draft.finish
    return (startModule.2.declare c.entryName [] .void).1) _
      { Work.start with code := (startModule.2.declare c.entryName [] .void).2 })
  cases found : startModule.2.functionByName c.entryName with
  | some f =>
    obtain ⟨isName, isCall⟩ := eq_of_functionByName_start found
    have same : startModule.2.declare c.entryName [] .void = (f, startModule.2) := by
      simp [Module.declare, found]
    rw [same]
    exact finishEntry_moment whole .same (by rintro _ ⟨⟩) fun _ _ => .inr ⟨isName, isCall⟩
  | none =>
    have step := Step.declare (s := .of p r c) (w := .start) c.entryName [] .void found
    refine finishEntry_moment whole (.step .same step) (by rintro _ ⟨⟩) fun w' there => .inl ?_
    intro fn known
    have declared : ((startModule.2.declare c.entryName [] .void).2).function?
        (startModule.2.declare c.entryName [] .void).1 = some ⟨c.entryName, [], .void, none⟩ := by
      simp [declare_new [] .void found, Module.function?]
    rw [there.keeps _ _ declared] at known
    cases known
    rfl

end Compile

/-- Whatever the program, the resolver, the configuration and the limit: the state in which
compilation ends, well or not, comes from the start by steps. -/
theorem compile_moment (limit : Nat) (p : Program) (r : Resolver) (c : Config) :
    Moment (.of p r c) (Compile.endOf (Compile.entry (.ofDepth limit)) (.of p r c) .start) :=
  Compile.entry_moment p r c (Lowering.ofDepth_walks limit)

/-- Where the statements at the top begin. -/
def topFrame : Frame where
  draft := Draft.start ⟨0⟩ []
  scope := .empty
  bindings := .root
  returning := .entry
  isEntry := true

/-- What statements at the top lead to. -/
theorem Work.Moment.reaches_top {s : Setup} {w : Work} (h : Moment s w) (limit : Nat)
    (stmts : List StmtId) :
    Reaches s w (Compile.endOf ((Lowering.ofDepth limit).block stmts topFrame) s w) :=
  (((Lowering.ofDepth_walks limit).block stmts).ends h (by rintro _ ⟨⟩)).reaches

/-- Statements at the top lead on by steps. -/
theorem Work.Moment.later_top {s : Setup} {w : Work} (h : Moment s w) (limit : Nat)
    (stmts : List StmtId) :
    Later s w (Compile.endOf ((Lowering.ofDepth limit).block stmts topFrame) s w) :=
  (h.reaches_top limit stmts).later

/-- A state that a compilation comes to, also while interfaces are being lowered. -/
inductive Work.Reached (s : Setup) : Work → Prop
  | start : Reached s .start
  | goes {w w' : Work} (before : Reached s w) (there : Reaches s w w') : Reached s w'
  | marks {w : Work} (d : DeclId) (before : Reached s w) :
    Reached s { w with interfacesInProgress := d :: w.interfacesInProgress }

namespace Work.Reached

variable {s : Setup} {w : Work}

theorem moment (h : Reached s w) : Moment s w := by
  induction h with
  | start => exact .same
  | goes _ there ih => exact ih.later there.later
  | marks d _ ih => exact ih.later (Step.inProgress _).later

/-- The layouts that are recorded hold what their properties were found to hold. -/
theorem made (h : Reached s w) : ∀ cls layout, w.layouts.get? cls = some layout →
    ∃ busy, layout.MadeAmid s w busy := by
  induction h with
  | start =>
    intro cls layout known
    cases known
  | goes _ there ih =>
    intro cls layout known
    rcases there.made cls layout known with old | new
    · obtain ⟨busy, made⟩ := ih cls layout old
      exact ⟨busy, made.later there.later⟩
    · exact new
  | marks d _ ih =>
    intro cls layout known
    obtain ⟨busy, made⟩ := ih cls layout known
    exact ⟨busy, made.later (Step.inProgress _).later⟩

end Work.Reached

end ShapeCompiler
