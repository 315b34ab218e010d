/-
**Statement trees of the Java IR.**

The Java statements (`java_ir.py`) that hold other statements, and the walks over them that replace
their call statements.  Expressions and types are never looked into, so they are parameters.

Main definitions:

* `MethodCall`, `JavaStatement` — a call, and the statements;
* `mapCalls` — every call statement of a tree replaced, and nothing else;
* `rebuild` — the walk of the Spring mapping;
* `Rebuilds` — a tree that the walk rebuilds as it should.

Main results:

* `mapCalls_eq_self_iff` — a tree is unchanged when its calls are;
* `rebuild_eq_mapCalls_iff` — **when the walk replaces the calls and nothing else**.
-/

import Mathlib.Data.List.Basic

set_option autoImplicit false

namespace CobolJava.Spring

/-! ### Statements -/

/-- `JavaMethodCall` -/
structure MethodCall (ε : Type) where
  objectRef : Option ε
  methodName : String
  arguments : List ε
  isStatic : Bool
  className : String
deriving DecidableEq

/-- The statements, over expressions `ε` and types `τ`. -/
inductive JavaStatement (ε τ : Type)
  | assignment (target : String) (expression : ε) (javaType : Option τ)
  | localVarDecl (javaType : τ) (name : String) (initializer : Option ε)
  | methodCall (call : MethodCall ε)
  | ifElse (condition : ε) (thenBody elseBody : List (JavaStatement ε τ))
  | whileLoop (condition : ε) (body : List (JavaStatement ε τ))
  | doWhile (condition : ε) (body : List (JavaStatement ε τ))
  | forLoop (init : Option (JavaStatement ε τ)) (condition : Option ε)
      (update : Option (JavaStatement ε τ)) (body : List (JavaStatement ε τ))
  | tryCatch (tryBody : List (JavaStatement ε τ)) (catchType catchVar : String)
      (catchBody finallyBody : List (JavaStatement ε τ))
  | returnValue (expression : Option ε)
  | throwNew (exceptionClass message : String)
  /-- A `scoped` block is rendered between braces. -/
  | block (statements : List (JavaStatement ε τ)) (isScoped : Bool)
  | comment (text : String)
  | switchOn (expression : ε) (cases : List (ε × List (JavaStatement ε τ)))
      (defaultBody : List (JavaStatement ε τ))

variable {ε τ : Type}

/-! ### Replacing the calls -/

section Map

variable (f : MethodCall ε → JavaStatement ε τ)

mutual

/-- **Every call statement of a tree replaced**, and nothing else. -/
def mapCalls : JavaStatement ε τ → JavaStatement ε τ
  | .methodCall call => f call
  | .ifElse condition thenBody elseBody =>
      .ifElse condition (mapCallsList thenBody) (mapCallsList elseBody)
  | .whileLoop condition body => .whileLoop condition (mapCallsList body)
  | .doWhile condition body => .doWhile condition (mapCallsList body)
  | .forLoop init condition update body =>
      .forLoop (mapCallsOption init) condition (mapCallsOption update) (mapCallsList body)
  | .tryCatch tryBody catchType catchVar catchBody finallyBody =>
      .tryCatch (mapCallsList tryBody) catchType catchVar (mapCallsList catchBody)
        (mapCallsList finallyBody)
  | .block statements isScoped => .block (mapCallsList statements) isScoped
  | .switchOn expression cases defaultBody =>
      .switchOn expression (mapCallsCases cases) (mapCallsList defaultBody)
  | .assignment target expression javaType => .assignment target expression javaType
  | .localVarDecl javaType name initializer => .localVarDecl javaType name initializer
  | .returnValue expression => .returnValue expression
  | .throwNew exceptionClass message => .throwNew exceptionClass message
  | .comment text => .comment text

def mapCallsList : List (JavaStatement ε τ) → List (JavaStatement ε τ)
  | [] => []
  | s :: ss => mapCalls s :: mapCallsList ss

def mapCallsOption : Option (JavaStatement ε τ) → Option (JavaStatement ε τ)
  | none => none
  | some s => some (mapCalls s)

def mapCallsCases : List (ε × List (JavaStatement ε τ)) → List (ε × List (JavaStatement ε τ))
  | [] => []
  | (value, body) :: cases => (value, mapCallsList body) :: mapCallsCases cases

end

end Map

mutual

def callsOf : JavaStatement ε τ → List (MethodCall ε)
  | .methodCall call => [call]
  | .ifElse _ thenBody elseBody => callsOfList thenBody ++ callsOfList elseBody
  | .whileLoop _ body => callsOfList body
  | .doWhile _ body => callsOfList body
  | .forLoop init _ update body => callsOfOption init ++ callsOfOption update ++ callsOfList body
  | .tryCatch tryBody _ _ catchBody finallyBody =>
      callsOfList tryBody ++ callsOfList catchBody ++ callsOfList finallyBody
  | .block statements _ => callsOfList statements
  | .switchOn _ cases defaultBody => callsOfCases cases ++ callsOfList defaultBody
  | _ => []

def callsOfList : List (JavaStatement ε τ) → List (MethodCall ε)
  | [] => []
  | s :: ss => callsOf s ++ callsOfList ss

def callsOfOption : Option (JavaStatement ε τ) → List (MethodCall ε)
  | none => []
  | some s => callsOf s

def callsOfCases : List (ε × List (JavaStatement ε τ)) → List (MethodCall ε)
  | [] => []
  | (_, body) :: cases => callsOfList body ++ callsOfCases cases

end

/-! ### The walk of the mapping -/

section Walk

variable (intoHeaders : Bool) (g : MethodCall ε → JavaStatement ε τ)

mutual

/-- **The walk of the Spring mapping** over a statement; `intoHeaders` says whether it goes into the
first and the last statement of a `for` header.  A block is rebuilt from its statements alone. -/
def rebuild : JavaStatement ε τ → JavaStatement ε τ
  | .methodCall call => g call
  | .ifElse condition thenBody elseBody =>
      .ifElse condition (rebuildList thenBody) (rebuildList elseBody)
  | .block statements _ => .block (rebuildList statements) false
  | .whileLoop condition body => .whileLoop condition (rebuildList body)
  | .forLoop init condition update body =>
      .forLoop (if intoHeaders then rebuildOption init else init) condition
        (if intoHeaders then rebuildOption update else update) (rebuildList body)
  | .doWhile condition body => .doWhile condition (rebuildList body)
  | .tryCatch tryBody catchType catchVar catchBody finallyBody =>
      .tryCatch (rebuildList tryBody) catchType catchVar (rebuildList catchBody)
        (rebuildList finallyBody)
  | .switchOn expression cases defaultBody =>
      .switchOn expression (rebuildCases cases) (rebuildList defaultBody)
  | .assignment target expression javaType => .assignment target expression javaType
  | .localVarDecl javaType name initializer => .localVarDecl javaType name initializer
  | .returnValue expression => .returnValue expression
  | .throwNew exceptionClass message => .throwNew exceptionClass message
  | .comment text => .comment text

def rebuildList : List (JavaStatement ε τ) → List (JavaStatement ε τ)
  | [] => []
  | s :: ss => rebuild s :: rebuildList ss

def rebuildOption : Option (JavaStatement ε τ) → Option (JavaStatement ε τ)
  | none => none
  | some s => some (rebuild s)

def rebuildCases : List (ε × List (JavaStatement ε τ)) → List (ε × List (JavaStatement ε τ))
  | [] => []
  | (value, body) :: cases => (value, rebuildList body) :: rebuildCases cases

end

end Walk

/-! ### What the walk keeps -/

section Kept

variable (intoHeaders : Bool) (stays met : MethodCall ε → Prop)

mutual

/-- **A tree in whose walk no scoped block is met**, the calls that are met are as `met` says, and
the calls of the headers that are passed by are as `stays` says. -/
def Rebuilds : JavaStatement ε τ → Prop
  | .methodCall call => met call
  | .ifElse _ thenBody elseBody => RebuildsList thenBody ∧ RebuildsList elseBody
  | .block statements isScoped => isScoped = false ∧ RebuildsList statements
  | .whileLoop _ body => RebuildsList body
  | .forLoop init _ update body =>
      (if intoHeaders then RebuildsOption init ∧ RebuildsOption update
        else ∀ call ∈ callsOfOption init ++ callsOfOption update, stays call) ∧ RebuildsList body
  | .doWhile _ body => RebuildsList body
  | .tryCatch tryBody _ _ catchBody finallyBody =>
      RebuildsList tryBody ∧ RebuildsList catchBody ∧ RebuildsList finallyBody
  | .switchOn _ cases defaultBody => RebuildsCases cases ∧ RebuildsList defaultBody
  | _ => True

def RebuildsList : List (JavaStatement ε τ) → Prop
  | [] => True
  | s :: ss => Rebuilds s ∧ RebuildsList ss

def RebuildsOption : Option (JavaStatement ε τ) → Prop
  | none => True
  | some s => Rebuilds s

def RebuildsCases : List (ε × List (JavaStatement ε τ)) → Prop
  | [] => True
  | (_, body) :: cases => RebuildsList body ∧ RebuildsCases cases

end

end Kept

section Law

variable {intoHeaders : Bool} {f g : MethodCall ε → JavaStatement ε τ}
  {stays met : MethodCall ε → Prop}

mutual

/-- **A tree is unchanged when its calls are.** -/
theorem mapCalls_eq_self_iff (s : JavaStatement ε τ) :
    mapCalls f s = s ↔ ∀ call ∈ callsOf s, f call = .methodCall call := by
  cases s with
  | methodCall call => simp [mapCalls, callsOf]
  | ifElse condition thenBody elseBody =>
      simp [mapCalls, callsOf, mapCallsList_eq_self_iff thenBody, mapCallsList_eq_self_iff elseBody,
        or_imp, forall_and]
  | whileLoop condition body => simp [mapCalls, callsOf, mapCallsList_eq_self_iff body]
  | doWhile condition body => simp [mapCalls, callsOf, mapCallsList_eq_self_iff body]
  | forLoop init condition update body =>
      simp [mapCalls, callsOf, mapCallsOption_eq_self_iff init, mapCallsOption_eq_self_iff update,
        mapCallsList_eq_self_iff body, or_imp, forall_and]
  | tryCatch tryBody catchType catchVar catchBody finallyBody =>
      simp [mapCalls, callsOf, mapCallsList_eq_self_iff tryBody,
        mapCallsList_eq_self_iff catchBody, mapCallsList_eq_self_iff finallyBody,
        or_imp, forall_and]
  | block statements isScoped => simp [mapCalls, callsOf, mapCallsList_eq_self_iff statements]
  | switchOn expression cases defaultBody =>
      simp [mapCalls, callsOf, mapCallsCases_eq_self_iff cases,
        mapCallsList_eq_self_iff defaultBody, or_imp, forall_and]
  | _ => simp [mapCalls, callsOf]

theorem mapCallsList_eq_self_iff (ss : List (JavaStatement ε τ)) :
    mapCallsList f ss = ss ↔ ∀ call ∈ callsOfList ss, f call = .methodCall call := by
  cases ss with
  | nil => simp [mapCallsList, callsOfList]
  | cons s ss =>
      simp [mapCallsList, callsOfList, mapCalls_eq_self_iff s, mapCallsList_eq_self_iff ss,
        or_imp, forall_and]

theorem mapCallsOption_eq_self_iff (s : Option (JavaStatement ε τ)) :
    mapCallsOption f s = s ↔ ∀ call ∈ callsOfOption s, f call = .methodCall call := by
  cases s with
  | none => simp [mapCallsOption, callsOfOption]
  | some s => simp [mapCallsOption, callsOfOption, mapCalls_eq_self_iff s]

theorem mapCallsCases_eq_self_iff (branches : List (ε × List (JavaStatement ε τ))) :
    mapCallsCases f branches = branches ↔ ∀ call ∈ callsOfCases branches, f call = .methodCall call := by
  cases branches with
  | nil => simp [mapCallsCases, callsOfCases]
  | cons branch branches =>
      obtain ⟨value, body⟩ := branch
      simp [mapCallsCases, callsOfCases, mapCallsList_eq_self_iff body,
        mapCallsCases_eq_self_iff branches, or_imp, forall_and]

end

mutual

/-- **When the walk replaces the calls and nothing else.** -/
theorem rebuild_eq_mapCalls_iff
    (hstays : intoHeaders = false → ∀ call, stays call ↔ f call = .methodCall call)
    (hmet : ∀ call, met call ↔ g call = f call) (s : JavaStatement ε τ) :
    rebuild intoHeaders g s = mapCalls f s ↔ Rebuilds intoHeaders stays met s := by
  cases s with
  | methodCall call => simp [rebuild, mapCalls, Rebuilds, hmet]
  | ifElse condition thenBody elseBody =>
      simp [rebuild, mapCalls, Rebuilds, rebuildList_eq_mapCallsList_iff hstays hmet thenBody,
        rebuildList_eq_mapCallsList_iff hstays hmet elseBody]
  | whileLoop condition body =>
      simp [rebuild, mapCalls, Rebuilds, rebuildList_eq_mapCallsList_iff hstays hmet body]
  | doWhile condition body =>
      simp [rebuild, mapCalls, Rebuilds, rebuildList_eq_mapCallsList_iff hstays hmet body]
  | forLoop init condition update body =>
      have hinit := rebuildOption_eq_mapCallsOption_iff hstays hmet init
      have hupdate := rebuildOption_eq_mapCallsOption_iff hstays hmet update
      have hbody := rebuildList_eq_mapCallsList_iff hstays hmet body
      -- a header that is passed by is right when its calls are to stay
      have hinit' := mapCallsOption_eq_self_iff (f := f) init
      have hupdate' := mapCallsOption_eq_self_iff (f := f) update
      rw [eq_comm] at hinit' hupdate'
      simp only [rebuild, mapCalls, Rebuilds, JavaStatement.forLoop.injEq, true_and]
      by_cases hinto : intoHeaders = true
      · rw [if_pos hinto, if_pos hinto, if_pos hinto, hinit, hupdate, hbody, and_assoc]
      · rw [if_neg hinto, if_neg hinto, if_neg hinto, hinit', hupdate', hbody,
          List.forall_mem_append, and_assoc]
        simp only [hstays (by simpa using hinto)]
  | tryCatch tryBody catchType catchVar catchBody finallyBody =>
      simp [rebuild, mapCalls, Rebuilds, rebuildList_eq_mapCallsList_iff hstays hmet tryBody,
        rebuildList_eq_mapCallsList_iff hstays hmet catchBody, rebuildList_eq_mapCallsList_iff hstays hmet finallyBody]
  | block statements isScoped =>
      simp only [rebuild, mapCalls, Rebuilds, JavaStatement.block.injEq,
        rebuildList_eq_mapCallsList_iff hstays hmet statements]
      rw [and_comm, @eq_comm _ false]
  | switchOn expression cases defaultBody =>
      simp [rebuild, mapCalls, Rebuilds, rebuildCases_eq_mapCallsCases_iff hstays hmet cases,
        rebuildList_eq_mapCallsList_iff hstays hmet defaultBody]
  | _ => simp [rebuild, mapCalls, Rebuilds]

theorem rebuildList_eq_mapCallsList_iff
    (hstays : intoHeaders = false → ∀ call, stays call ↔ f call = .methodCall call)
    (hmet : ∀ call, met call ↔ g call = f call) (ss : List (JavaStatement ε τ)) :
    rebuildList intoHeaders g ss = mapCallsList f ss ↔ RebuildsList intoHeaders stays met ss := by
  cases ss with
  | nil => simp [rebuildList, mapCallsList, RebuildsList]
  | cons s ss =>
      simp [rebuildList, mapCallsList, RebuildsList, rebuild_eq_mapCalls_iff hstays hmet s,
        rebuildList_eq_mapCallsList_iff hstays hmet ss]

theorem rebuildOption_eq_mapCallsOption_iff
    (hstays : intoHeaders = false → ∀ call, stays call ↔ f call = .methodCall call)
    (hmet : ∀ call, met call ↔ g call = f call) (s : Option (JavaStatement ε τ)) :
    rebuildOption intoHeaders g s = mapCallsOption f s ↔
      RebuildsOption intoHeaders stays met s := by
  cases s with
  | none => simp [rebuildOption, mapCallsOption, RebuildsOption]
  | some s => simp [rebuildOption, mapCallsOption, RebuildsOption, rebuild_eq_mapCalls_iff hstays hmet s]

theorem rebuildCases_eq_mapCallsCases_iff
    (hstays : intoHeaders = false → ∀ call, stays call ↔ f call = .methodCall call)
    (hmet : ∀ call, met call ↔ g call = f call)
    (branches : List (ε × List (JavaStatement ε τ))) :
    rebuildCases intoHeaders g branches = mapCallsCases f branches ↔
      RebuildsCases intoHeaders stays met branches := by
  cases branches with
  | nil => simp [rebuildCases, mapCallsCases, RebuildsCases]
  | cons branch branches =>
      obtain ⟨value, body⟩ := branch
      simp [rebuildCases, mapCallsCases, RebuildsCases, rebuildList_eq_mapCallsList_iff hstays hmet body,
        rebuildCases_eq_mapCallsCases_iff hstays hmet branches]

end

end Law

end CobolJava.Spring
