/-
**Calls of other services.**

The second pass of the Spring mapping (`_rewrite_service_calls`, `_rewrite_static_calls` of
`java_to_spring_mapping.py`): a static call of a class that is another service becomes a call of the
injected bean, and a call that cannot be wired becomes a symbol that does not compile.

Main definitions:

* `SpringBootService`, `rewriteServiceCalls` — the services, and the pass;
* `serviceOf`, `serviceCall` — the service a class names, and the call it is to become;
* `rewriteStaticCalls` — the pass over one method with its bean map;
* `RebuildsServices`, `Unscoped` — the trees on which the passes are right.

Main results:

* `wired_eq_iff` — a call of a bean tells the service that it was wired to;
* `rewritesCalls_iff` — **when the passes change the calls and nothing else**.
-/

import Mathlib
import CobolJava.Lib.KeptFirst
import CobolJava.Lib.PyLines
import CobolJava.Spring.StatementTrees

set_option autoImplicit false

namespace CobolJava.Spring

/-! ### Services -/

structure SpringBootServiceMethod (ε τ : Type) where
  name : String
  returnType : τ
  parameters : List (τ × String)
  bodyStatements : List (JavaStatement ε τ)
  isStatic : Bool
  exceptions : List String

/-- A service, over fields `φ`. -/
structure SpringBootService (ε τ φ : Type) where
  name : String
  package : String
  sourceProgram : String
  dependsOn : List String
  isTransactional : Bool
  hasFileOperations : Bool
  hasDatabaseOperations : Bool
  methods : List (SpringBootServiceMethod ε τ)
  fields : List φ

/-- A character that a service key leaves out. -/
def isKeySeparator (c : Char) : Bool :=
  ['-', '_', '\'', '"', Char.ofNat 96].contains c || Py.isSpace c

/-- A service, program or class name as calls are matched. -/
def normaliseServiceKey (name : String) : List Char :=
  Py.Chars.upper (name.toList.filter fun c => !isKeySeparator c)

/-- The bean field of a service class. -/
def toBeanFieldName (serviceName : String) : String :=
  match serviceName.toList with
  | [] => ""
  | c :: rest => String.ofList (c.toLower :: rest)

variable {ε τ φ : Type}

/-! ### The passes -/

/-- The entries of `by_key` in the order in which they are offered; the first of a key is kept. -/
def byKeyEntries (services : List (SpringBootService ε τ φ)) :
    List (List Char × SpringBootService ε τ φ) :=
  services.flatMap fun svc =>
    (normaliseServiceKey svc.name, svc) ::
      if svc.sourceProgram = "" then [] else [(normaliseServiceKey svc.sourceProgram, svc)]

/-- `by_key.get(key)` -/
def lookup (services : List (SpringBootService ε τ φ)) (key : List Char) :
    Option (SpringBootService ε τ φ) :=
  (Kept.first Prod.fst (byKeyEntries services) key).map Prod.snd

/-- The first method that is not `main`, `""` when there is none. -/
def businessMethod (svc : SpringBootService ε τ φ) : String :=
  match svc.methods.find? fun m => m.name != "main" with
  | some m => m.name
  | none => ""

/-- A call that cannot be wired, as a symbol that does not compile. -/
def unsupportedCall (variableRef : String → ε) (target problem : String) : JavaStatement ε τ :=
  .assignment
    (String.ofList (target.toList.map fun c => if c = '-' then '_' else c) ++ "_CALL")
    (variableRef ("UNSUPPORTED_CALL$" ++ problem)) none

/-- What a static call becomes when its class is found to be `target`. -/
def wired (variableRef : String → ε) (owner : SpringBootService ε τ φ) (call : MethodCall ε)
    (target : Option (SpringBootService ε τ φ)) : JavaStatement ε τ :=
  match target with
  | none =>
      if call.methodName ≠ "" then .methodCall call
      else unsupportedCall variableRef call.className "EXTERNAL"
  | some target =>
      if target.name = owner.name then unsupportedCall variableRef call.className "RECURSIVE"
      else if businessMethod target = "" then unsupportedCall variableRef call.className "NO_ENTRY"
      else .methodCall ⟨some (variableRef (toBeanFieldName target.name)), businessMethod target,
        call.arguments, false, ""⟩

/-- Only calls of a class, without an object, are candidates. -/
def isCandidate (call : MethodCall ε) : Bool :=
  call.objectRef.isNone && call.className ≠ ""

/-- `_rewrite` on a call statement. -/
def rewriteCall (variableRef : String → ε) (services : List (SpringBootService ε τ φ))
    (owner : SpringBootService ε τ φ) (call : MethodCall ε) : JavaStatement ε τ :=
  if isCandidate call then
    wired variableRef owner call (lookup services (normaliseServiceKey call.className))
  else .methodCall call

/-- A service with its method bodies replaced. -/
def SpringBootService.withBodies (svc : SpringBootService ε τ φ)
    (body : List (JavaStatement ε τ) → List (JavaStatement ε τ)) : SpringBootService ε τ φ :=
  { svc with methods := svc.methods.map fun m => { m with bodyStatements := body m.bodyStatements } }

/-- `_rewrite_service_calls` -/
def rewriteServiceCalls (variableRef : String → ε) (services : List (SpringBootService ε τ φ)) :
    List (SpringBootService ε τ φ) :=
  services.map fun svc => svc.withBodies (rebuildList false (rewriteCall variableRef services svc))

/-- `_rewrite_static_calls` on a call statement. -/
def rewriteStaticCall (variableRef : String → ε) (beans : String → Option String)
    (call : MethodCall ε) : JavaStatement ε τ :=
  if call.isStatic then
    match beans call.className with
    | some field =>
        .methodCall ⟨some (variableRef field), call.methodName, call.arguments, false, ""⟩
    | none => .methodCall call
  else .methodCall call

/-- `_rewrite_static_calls`; `beans` maps the name of a service class to its field. -/
def rewriteStaticCalls (variableRef : String → ε) (beans : String → Option String) :
    JavaStatement ε τ → JavaStatement ε τ :=
  rebuild true (rewriteStaticCall variableRef beans)

/-! ### The law -/

/-- The service a class is: the one of that name, and otherwise the one of that program. -/
def serviceOf (services : List (SpringBootService ε τ φ)) (key : List Char) :
    Option (SpringBootService ε τ φ) :=
  (services.find? fun svc => normaliseServiceKey svc.name = key).or
    (services.find? fun svc => svc.sourceProgram ≠ "" && normaliseServiceKey svc.sourceProgram = key)

/-- **What a call statement is to become.** -/
def serviceCall (variableRef : String → ε) (services : List (SpringBootService ε τ φ))
    (owner : SpringBootService ε τ φ) (call : MethodCall ε) : JavaStatement ε τ :=
  if isCandidate call then
    wired variableRef owner call (serviceOf services (normaliseServiceKey call.className))
  else .methodCall call

/-- **The pass changes the calls of every method and nothing else.** -/
def RewritesServiceCalls (variableRef : String → ε) (services : List (SpringBootService ε τ φ)) :
    Prop :=
  rewriteServiceCalls variableRef services =
    services.map fun svc => svc.withBodies (mapCallsList (serviceCall variableRef services svc))

/-- **The pass over one method changes its static calls and nothing else.** -/
def RewritesStaticCalls (variableRef : String → ε) (beans : String → Option String)
    (s : JavaStatement ε τ) : Prop :=
  rewriteStaticCalls variableRef beans s = mapCalls (rewriteStaticCall variableRef beans) s

/-- A service has a key as its name or as its program. -/
def HasKey (key : List Char) (svc : SpringBootService ε τ φ) : Prop :=
  normaliseServiceKey svc.name = key ∨
    svc.sourceProgram ≠ "" ∧ normaliseServiceKey svc.sourceProgram = key

instance (key : List Char) (svc : SpringBootService ε τ φ) : Decidable (HasKey key svc) :=
  inferInstanceAs (Decidable (_ ∨ _))

/-- A call that is to stay: it is of no service, and it names a method. -/
def Stays (services : List (SpringBootService ε τ φ)) (call : MethodCall ε) : Prop :=
  isCandidate call = true →
    call.methodName ≠ "" ∧ ∀ svc ∈ services, ¬ HasKey (normaliseServiceKey call.className) svc

/-- **The service of a call is not taken for another**: when its class is the name of `b`, the first
service with that name or program is `b`, unless both are other services without a method to call. -/
def NotTaken (services : List (SpringBootService ε τ φ)) (owner : SpringBootService ε τ φ)
    (call : MethodCall ε) : Prop :=
  isCandidate call = true →
    ∀ b ∈ services, normaliseServiceKey b.name = normaliseServiceKey call.className →
      ∀ a ∈ services.find? fun svc => HasKey (normaliseServiceKey call.className) svc,
        a = b ∨
          (a.name ≠ owner.name ∧ businessMethod a = "") ∧ b.name ≠ owner.name ∧ businessMethod b = ""

/-- **When the pass over the services is right**: the walk over a method meets no scoped block, the
calls of `for` headers are to stay, and no other call is taken for one of another service. -/
def RebuildsServices (services : List (SpringBootService ε τ φ)) : Prop :=
  ∀ svc ∈ services, ∀ m ∈ svc.methods,
    RebuildsList false (Stays services) (NotTaken services svc) m.bodyStatements

/-- **When the pass over a method is right**: it meets no scoped block. -/
def Unscoped (s : JavaStatement ε τ) : Prop :=
  Rebuilds true (fun _ => True) (fun _ => True) s

section Law

variable {variableRef : String → ε} {services : List (SpringBootService ε τ φ)}
  {owner a b : SpringBootService ε τ φ} {call : MethodCall ε} {key : List Char}

/-! ### Services of a key -/

/-- A service found under a key is the first that has it as its name or its program. -/
theorem lookup_eq (key : List Char) :
    lookup services key = services.find? fun svc => HasKey key svc := by
  induction services with
  | nil => rfl
  | cons svc services ih =>
      have hcons : byKeyEntries (svc :: services) =
          ((normaliseServiceKey svc.name, svc) ::
            if svc.sourceProgram = "" then []
            else [(normaliseServiceKey svc.sourceProgram, svc)]) ++ byKeyEntries services := rfl
      rw [lookup] at ih ⊢
      rw [hcons, Kept.first_append, List.find?_cons, ← ih]
      by_cases hname : normaliseServiceKey svc.name = key
      · simp [Kept.first, HasKey, hname]
      · by_cases hprogram : svc.sourceProgram = ""
        · simp [Kept.first, HasKey, hname, hprogram]
        · by_cases hkey : normaliseServiceKey svc.sourceProgram = key
          · simp [Kept.first, HasKey, hname, hprogram, hkey]
          · simp [Kept.first, HasKey, hname, hprogram, hkey]

theorem serviceOf_eq_some (hnames : (services.map fun svc => normaliseServiceKey svc.name).Nodup)
    (hb : b ∈ services) : serviceOf services (normaliseServiceKey b.name) = some b := by
  have hinj := List.inj_on_of_nodup_map hnames
  obtain ⟨c, hfind⟩ : ∃ c, services.find?
      (fun svc => normaliseServiceKey svc.name = normaliseServiceKey b.name) = some c :=
    Option.isSome_iff_exists.1 (List.find?_isSome.2 ⟨b, hb, decide_eq_true rfl⟩)
  have hkey : normaliseServiceKey c.name = normaliseServiceKey b.name := by
    simpa using List.find?_some hfind
  rw [serviceOf, hfind, hinj (List.mem_of_find?_eq_some hfind) hb hkey, Option.some_or]

theorem serviceOf_eq_lookup (h : ∀ b ∈ services, normaliseServiceKey b.name ≠ key) :
    serviceOf services key = lookup services key := by
  have hnone : services.find? (fun svc => normaliseServiceKey svc.name = key) = none :=
    List.find?_eq_none.2 fun svc hmem => by simpa using h svc hmem
  rw [serviceOf, hnone, Option.none_or, lookup_eq]
  clear hnone
  induction services with
  | nil => rfl
  | cons svc services ih =>
      have hname := h svc List.mem_cons_self
      rw [List.find?_cons, List.find?_cons, ih fun b hb => h b (List.mem_cons_of_mem _ hb)]
      simp [HasKey, hname]

theorem serviceOf_eq_none_iff :
    serviceOf services key = none ↔ ∀ svc ∈ services, ¬ HasKey key svc := by
  simp [serviceOf, HasKey, ← forall₂_and]

/-! ### Calls of a service -/

theorem isKeySeparator_of_letter {c : Char} (h : 65 ≤ c.toNat ∧ c.toNat ≤ 90 ∨
    97 ≤ c.toNat ∧ c.toNat ≤ 122) : isKeySeparator c = false := by
  have hspace : Py.isSpace c = false := Py.Chars.isSpace_of_letter (by omega) (by omega)
  rw [isKeySeparator, hspace, Bool.or_false, Bool.eq_false_iff, ne_eq, List.contains_iff_mem]
  intro hmem
  simp only [List.mem_cons, List.not_mem_nil, or_false] at hmem
  rcases hmem with rfl | rfl | rfl | rfl | rfl <;> revert h <;> decide

theorem isKeySeparator_toLower (c : Char) : isKeySeparator c.toLower = isKeySeparator c := by
  by_cases hupper : c.isUpper = true
  · have hlo : 65 ≤ c.toNat := by
      simp only [Char.isUpper, decide_eq_true_eq] at hupper
      exact hupper.1
    have hhi : c.toNat ≤ 90 := by
      simp only [Char.isUpper, decide_eq_true_eq] at hupper
      exact hupper.2
    have hlower : c.toLower.toNat = c.toNat + 32 := by
      rw [Char.toLower_eq_of_isUpper hupper, Char.toNat_ofNat, if_pos (Or.inl (by omega))]
    rw [isKeySeparator_of_letter (Or.inl ⟨hlo, hhi⟩),
      isKeySeparator_of_letter (Or.inr ⟨by omega, by omega⟩)]
  · rw [Char.toLower_eq_of_not_isUpper (by simpa using hupper)]

theorem normaliseServiceKey_toBeanFieldName (name : String) :
    normaliseServiceKey (toBeanFieldName name) = normaliseServiceKey name := by
  rw [toBeanFieldName]
  split
  · rename_i hnil
    rw [normaliseServiceKey, normaliseServiceKey, hnil]
    rfl
  · rename_i c rest hcons
    rw [normaliseServiceKey, normaliseServiceKey, hcons, String.toList_ofList, List.filter_cons,
      List.filter_cons, isKeySeparator_toLower]
    split <;> simp [Py.Chars.upper, Char.toUpper_toLower_eq_toUpper]

/-- A call of a service tells the service. -/
theorem wired_eq_iff (hinj : Function.Injective variableRef)
    (hne : normaliseServiceKey a.name ≠ normaliseServiceKey b.name) :
    wired (τ := τ) variableRef owner call (some a) = wired variableRef owner call (some b) ↔
      (a.name ≠ owner.name ∧ businessMethod a = "") ∧ b.name ≠ owner.name ∧
        businessMethod b = "" := by
  have hname : a.name ≠ b.name := fun h => hne (congrArg normaliseServiceKey h)
  have hfield : toBeanFieldName a.name ≠ toBeanFieldName b.name := fun h => hne <| by
    rw [← normaliseServiceKey_toBeanFieldName, h, normaliseServiceKey_toBeanFieldName]
  have hrecursive : variableRef ("UNSUPPORTED_CALL$" ++ "RECURSIVE") ≠
      variableRef ("UNSUPPORTED_CALL$" ++ "NO_ENTRY") := fun h => absurd (hinj h) (by decide)
  have hnone : unsupportedCall (τ := τ) variableRef call.className "RECURSIVE" ≠
      unsupportedCall variableRef call.className "NO_ENTRY" := by
    intro h
    rw [unsupportedCall, unsupportedCall, JavaStatement.assignment.injEq] at h
    exact hrecursive h.2.1
  simp only [wired]
  by_cases ha : a.name = owner.name
  · have hb : b.name ≠ owner.name := fun h => hname (ha.trans h.symm)
    rw [if_pos ha, if_neg hb]
    by_cases hentry : businessMethod b = ""
    · simpa [hentry, ha] using hnone
    · simp [hentry, ha, unsupportedCall]
  · rw [if_neg ha]
    by_cases hb : b.name = owner.name
    · rw [if_pos hb]
      by_cases hentry : businessMethod a = ""
      · simpa [hentry, hb] using hnone.symm
      · simp [hentry, hb, unsupportedCall]
    · rw [if_neg hb]
      by_cases hentry : businessMethod a = ""
      · by_cases hentry' : businessMethod b = ""
        · simp [hentry, hentry', ha, hb]
        · simp [hentry, hentry', unsupportedCall]
      · by_cases hentry' : businessMethod b = ""
        · simp [hentry, hentry', unsupportedCall]
        · simp only [hentry, hentry', if_false, JavaStatement.methodCall.injEq, MethodCall.mk.injEq,
            Option.some.injEq, hinj.eq_iff, hfield, false_and, and_false]

/-- A call of which the service is not taken for another becomes what it is to become. -/
theorem notTaken_iff (hinj : Function.Injective variableRef)
    (hnames : (services.map fun svc => normaliseServiceKey svc.name).Nodup)
    (call : MethodCall ε) :
    NotTaken services owner call ↔
      rewriteCall (τ := τ) variableRef services owner call =
        serviceCall variableRef services owner call := by
  have hinjOn := List.inj_on_of_nodup_map hnames
  rw [NotTaken, rewriteCall, serviceCall]
  by_cases hcandidate : isCandidate call = true
  swap
  · simp [hcandidate]
  rw [if_pos hcandidate, if_pos hcandidate]
  by_cases hclass : ∃ b ∈ services,
      normaliseServiceKey b.name = normaliseServiceKey call.className
  · obtain ⟨b, hb, hkey⟩ := hclass
    obtain ⟨a, hfind⟩ : ∃ a, services.find?
        (fun svc => HasKey (normaliseServiceKey call.className) svc) = some a :=
      Option.isSome_iff_exists.1 (List.find?_isSome.2 ⟨b, hb, decide_eq_true (Or.inl hkey)⟩)
    have ha := List.mem_of_find?_eq_some hfind
    -- the service of a class that is a service name is the only one of that name
    have htaken : (isCandidate call = true → ∀ b' ∈ services,
        normaliseServiceKey b'.name = normaliseServiceKey call.className →
        ∀ a' ∈ services.find? fun svc => HasKey (normaliseServiceKey call.className) svc,
          a' = b' ∨ (a'.name ≠ owner.name ∧ businessMethod a' = "") ∧ b'.name ≠ owner.name ∧
            businessMethod b' = "") ↔
        a = b ∨ (a.name ≠ owner.name ∧ businessMethod a = "") ∧ b.name ≠ owner.name ∧
          businessMethod b = "" := by
      constructor
      · intro h
        exact h hcandidate b hb hkey a hfind
      · rintro h - b' hb' hkey' a' ha'
        obtain rfl : b = b' := hinjOn hb hb' (hkey.trans hkey'.symm)
        obtain rfl : a = a' := Option.some.inj (hfind.symm.trans ha')
        exact h
    rw [htaken, lookup_eq, hfind, ← hkey, serviceOf_eq_some hnames hb]
    by_cases heq : a = b
    · simp [heq]
    · rw [wired_eq_iff hinj fun h => heq (hinjOn ha hb h), or_iff_right heq]
  · push Not at hclass
    rw [serviceOf_eq_lookup hclass]
    exact iff_of_true (fun _ b hb hkey => absurd hkey (hclass b hb)) rfl

/-- A call stays exactly when the law leaves it as it is. -/
theorem stays_iff (call : MethodCall ε) :
    Stays services call ↔
      serviceCall (τ := τ) variableRef services owner call = .methodCall call := by
  rw [Stays, serviceCall]
  by_cases hcandidate : isCandidate call = true
  swap
  · simp [hcandidate]
  rw [if_pos hcandidate, forall_prop_of_true hcandidate, ← serviceOf_eq_none_iff]
  have hobject : call.objectRef = none := by
    simpa using (Bool.and_eq_true_iff.1 hcandidate).1
  cases serviceOf services (normaliseServiceKey call.className) with
  | none =>
      by_cases hmethod : call.methodName = ""
      · simp [wired, unsupportedCall, hmethod]
      · simp [wired, hmethod]
  | some target =>
      -- no call of a bean is the call it is made of
      have hbean (field method : String) : JavaStatement.methodCall (τ := τ)
          ⟨some (variableRef field), method, call.arguments, false, ""⟩ ≠ .methodCall call := by
        intro h
        rw [JavaStatement.methodCall.injEq] at h
        exact absurd (congrArg MethodCall.objectRef h) (by simp [hobject])
      simp only [reduceCtorEq, and_false, false_iff, wired]
      split
      · simp [unsupportedCall]
      · split
        · simp [unsupportedCall]
        · exact hbean _ _

theorem withBodies_eq_iff (svc : SpringBootService ε τ φ)
    (f g : List (JavaStatement ε τ) → List (JavaStatement ε τ)) :
    svc.withBodies f = svc.withBodies g ↔
      ∀ m ∈ svc.methods, f m.bodyStatements = g m.bodyStatements := by
  simp [SpringBootService.withBodies]

theorem rewritesServiceCalls_iff :
    RewritesServiceCalls variableRef services ↔ ∀ svc ∈ services, ∀ m ∈ svc.methods,
      rebuildList false (rewriteCall variableRef services svc) m.bodyStatements =
        mapCallsList (serviceCall variableRef services svc) m.bodyStatements := by
  rw [RewritesServiceCalls, rewriteServiceCalls, List.map_inj_left]
  exact forall₂_congr fun svc _ => withBodies_eq_iff svc _ _

/-- **When the passes change the calls and nothing else.** -/
theorem rewritesCalls_iff (hinj : Function.Injective variableRef)
    (hnames : (services.map fun svc => normaliseServiceKey svc.name).Nodup)
    (beans : String → Option String) (s : JavaStatement ε τ) :
    (RewritesServiceCalls variableRef services ↔ RebuildsServices services) ∧
      (RewritesStaticCalls variableRef beans s ↔ Unscoped s) := by
  refine ⟨?_, ?_⟩
  · rw [rewritesServiceCalls_iff, RebuildsServices]
    refine forall₂_congr fun svc _ => forall₂_congr fun m _ => ?_
    exact rebuildList_eq_mapCallsList_iff (fun _ => stays_iff) (notTaken_iff hinj hnames) _
  · exact rebuild_eq_mapCalls_iff (fun h => absurd h (by decide)) (fun _ => iff_of_true trivial rfl) s

end Law

/-! ### Samples -/

namespace CallSample

def method (name : String) (body : List (JavaStatement String Unit)) :
    SpringBootServiceMethod String Unit :=
  ⟨name, (), [], body, false, []⟩

def service (name program : String) (body : List (JavaStatement String Unit)) :
    SpringBootService String Unit Unit :=
  ⟨name, "app", program, [], false, false, false, [method "run" body], []⟩

/-- `CALL` of a class. -/
def callOf (className : String) : JavaStatement String Unit :=
  .methodCall ⟨none, "", [], true, className⟩

def scopedBlock : List (SpringBootService String Unit Unit) :=
  [service "Orders" "" [.block [callOf "Billing"] true], service "Billing" "" []]

def header : List (SpringBootService String Unit Unit) :=
  [service "Orders" "" [.forLoop (some (callOf "Billing")) none none []], service "Billing" "" []]

/-- A program with the name of another service. -/
def shadowed : List (SpringBootService String Unit Unit) :=
  [service "Ledger" "BILLING" [], service "Orders" "" [callOf "Billing"], service "Billing" "" []]

/-- The call within the same block, a loop, and a condition. -/
def nested : List (SpringBootService String Unit Unit) :=
  [service "Orders" ""
      [.block [.ifElse "x" [callOf "Billing"] [.doWhile "y" [callOf "Unknown"]]] false],
    service "Billing" "" []]

end CallSample

open CallSample in
/-- A block that is scoped is rendered without its braces, a call in a `for` header stays, and a call
of `Billing` runs `Ledger`, which was made of a program of that name. -/
theorem not_rewritesCalls :
    ¬ RewritesServiceCalls id scopedBlock ∧ ¬ RewritesServiceCalls id header ∧
      ¬ RewritesServiceCalls id shadowed ∧
      ¬ RewritesStaticCalls id (fun _ => none) (.block [callOf "Billing"] true) := by
  refine ⟨fun h => ?_, fun h => ?_, fun h => ?_, fun h => ?_⟩
  · rw [rewritesServiceCalls_iff] at h
    have hbody := h _ List.mem_cons_self _ List.mem_cons_self
    exact absurd (JavaStatement.block.inj (List.cons.inj hbody).1).2 (by decide)
  · rw [rewritesServiceCalls_iff] at h
    have hbody := h _ List.mem_cons_self _ List.mem_cons_self
    exact absurd (congrArg callsOfList hbody) (by decide)
  · rw [rewritesServiceCalls_iff] at h
    have hbody := h _ (List.mem_cons_of_mem _ List.mem_cons_self) _ List.mem_cons_self
    exact absurd (congrArg callsOfList hbody) (by decide)
  · exact absurd (JavaStatement.block.inj h).2 (by decide)

open CallSample in
/-- Services with calls within conditions and loops. -/
theorem rewritesCalls_nested :
    (nested.map fun svc => normaliseServiceKey svc.name).Nodup ∧ RewritesServiceCalls id nested ∧
      RewritesStaticCalls id (fun _ => none) (.ifElse "x" [callOf "Billing"] []) := by
  have hnames : (nested.map fun svc => normaliseServiceKey svc.name).Nodup := by decide
  have hrewrites := rewritesCalls_iff (Function.injective_id : Function.Injective (id : String → String))
    hnames (fun _ => none) (.ifElse "x" [callOf "Billing"] [])
  have hclass (owner : SpringBootService String Unit Unit) (className : String)
      (hclass : className = "Billing" ∨ className = "Unknown") :
      NotTaken nested owner ⟨none, "", [], true, className⟩ := by
    intro _ b hb hkey a ha
    rcases List.mem_pair.1 hb with rfl | rfl
    · rcases hclass with rfl | rfl <;> exact absurd hkey (by decide)
    · rcases hclass with rfl | rfl
      · exact Or.inl (Option.some.inj ha).symm
      · exact absurd hkey (by decide)
  refine ⟨hnames, hrewrites.1.2 ?_, hrewrites.2.2 ⟨⟨trivial, trivial⟩, trivial⟩⟩
  intro svc hsvc m hm
  rcases List.mem_pair.1 hsvc with rfl | rfl
  · obtain rfl := List.mem_singleton.1 hm
    exact ⟨⟨rfl, ⟨⟨hclass _ _ (Or.inl rfl), trivial⟩,
      ⟨⟨hclass _ _ (Or.inr rfl), trivial⟩, trivial⟩⟩, trivial⟩, trivial⟩
  · obtain rfl := List.mem_singleton.1 hm
    trivial

end CobolJava.Spring
