import KubeKey.Go.Map
import KubeKey.Proxy.PathExpression

/-!
# Routes

`registerResources` of `pkg/proxy/transport.go`. Which routes a resource has depends on what its
storage implements. A route is a method and a template; the first handler that is registered for
both stays, and a template that does not compile is left out. `Table` says what the routers are
after any list of registrations.
-/

namespace KubeKey.Proxy

open KubeKey.Go KubeKey.Text

/-- Which of the interfaces of `rest` a storage implements, and which storage it is. -/
structure Storage where
  id : Nat
  /-- What `NamespaceScoped` says, if there is one. -/
  scoper : Option Bool := none
  lister : Bool := false
  watcher : Bool := false
  creater : Bool := false
  namedCreater : Bool := false
  collectionDeleter : Bool := false
  getter : Bool := false
  /-- With a subpath or without. -/
  getterWithOptions : Option Bool := none
  updater : Bool := false
  patcher : Bool := false
  gracefulDeleter : Bool := false
  /-- With a subpath or without. -/
  connecter : Option Bool := none
deriving DecidableEq

/-- `resourceOptions`. -/
structure ResourceOptions where
  path : Chars
  resource : Chars
  subresource : Chars
  resourcePath : Chars
  itemPath : Chars
  storage : Storage
deriving DecidableEq

/-- `init` of the options with the path and the storage. -/
def ResourceOptions.init (path : Chars) (storage : Storage) : Option ResourceOptions :=
  storage.scoper.bind fun namespaceScoped =>
    let before := if namespaceScoped then "/namespaces/{namespace}/".toList else "/".toList
    match path.splitOn '/' with
    | [resource, subresource] =>
      let both := before ++ resource ++ "/{name}/".toList ++ subresource
      some ⟨path, resource, subresource, both, both, storage⟩
    | [resource] => some ⟨path, resource, [], before ++ resource, before ++ resource ++ "/{name}".toList, storage⟩
    | _ => none

/-- `schema.GroupVersion`. -/
structure GroupVersion where
  group : Chars
  version : Chars
deriving DecidableEq

def GroupVersion.string (gv : GroupVersion) : Chars :=
  if gv.group = [] then gv.version else gv.group ++ '/' :: gv.version

/-- `apiResources`. -/
structure APIResources where
  gv : GroupVersion
  resourceOptions : List ResourceOptions
deriving DecidableEq

/-- The prefix of the paths. -/
def APIResources.root (r : APIResources) : Chars := "/apis/".toList ++ r.gv.string

inductive HandlerKind where
  | apiResources
  | list (forceWatch : Bool)
  | createNamed
  | create
  | deleteCollection
  | getWithOptions
  | get
  | update
  | patch
  | delete
  | connect
deriving DecidableEq

/-- A handler, by what it was made from. -/
structure Handler where
  kind : HandlerKind
  gv : GroupVersion
  options : Option ResourceOptions
deriving DecidableEq

/-- The arguments of `registerRouter`. -/
structure Registration where
  verb : String
  path : Chars
  handler : Handler
  shouldAdd : Bool
deriving DecidableEq

section Registrations

variable (resources : APIResources) (o : ResourceOptions)

/-- A registration for the options. -/
def route (verb : String) (path : Chars) (kind : HandlerKind) (shouldAdd : Bool) : Registration :=
  ⟨verb, resources.root ++ path, ⟨kind, resources.gv, some o⟩, shouldAdd⟩

def registerList : List Registration :=
  [route resources o "GET" o.resourcePath (.list false) o.storage.lister,
    route resources o "GET" ('/' :: o.resource) (.list false) (o.subresource = [] && o.storage.lister),
    route resources o "GET" ("/watch/".toList ++ o.resource) (.list true)
      (o.subresource = [] && o.storage.watcher && o.storage.lister)]

def registerPost : List Registration :=
  [route resources o "POST" o.resourcePath (if o.storage.namedCreater then .createNamed else .create) o.storage.creater]

def registerDeleteCollection : List Registration :=
  [route resources o "DELETE" o.resourcePath .deleteCollection o.storage.collectionDeleter]

def registerWatchList : List Registration :=
  [route resources o "GET" ("/watch".toList ++ o.resourcePath) (.list true) (o.storage.watcher && o.storage.lister)]

/-- The template of an item with a subpath. -/
def ResourceOptions.subpath (o : ResourceOptions) : Chars := o.itemPath ++ "/{path:*}".toList

def registerGet : List Registration :=
  match o.storage.getterWithOptions with
  | some getSubpath =>
    [route resources o "GET" o.itemPath .getWithOptions o.storage.getter,
      route resources o "GET" o.subpath .getWithOptions (o.storage.getter && getSubpath)]
  | none =>
    [route resources o "GET" o.itemPath .get o.storage.getter, route resources o "GET" o.subpath .get false]

def registerPut : List Registration := [route resources o "PUT" o.itemPath .update o.storage.updater]

def registerPatch : List Registration := [route resources o "PATCH" o.itemPath .patch o.storage.patcher]

def registerDelete : List Registration := [route resources o "DELETE" o.itemPath .delete o.storage.gracefulDeleter]

def registerWatch : List Registration :=
  [route resources o "GET" ("/watch".toList ++ o.itemPath) (.list true) o.storage.watcher]

def registerConnect : List Registration :=
  [route resources o "CONNECT" o.itemPath .connect o.storage.connecter.isSome,
    route resources o "CONNECT" o.subpath .connect (o.storage.connecter.getD false)]

/-- What `registerResources` registers, in its order. -/
def registrations : List Registration :=
  ⟨"GET", resources.root, ⟨.apiResources, resources.gv, none⟩, true⟩ ::
    resources.resourceOptions.flatMap fun o =>
      registerList resources o ++ registerPost resources o ++ registerDeleteCollection resources o ++
        registerWatchList resources o ++ registerGet resources o ++ registerPut resources o ++
        registerPatch resources o ++ registerDelete resources o ++ registerWatch resources o ++
        registerConnect resources o

end Registrations

/-! ## Routers -/

/-- `router`. -/
structure Router where
  path : Chars
  pathExpr : PathExpression
  handlers : GoMap Handler

/-- The handler is added, unless there is one for the method. -/
def Router.add (r : Router) (verb : String) (handler : Handler) : Router :=
  if (r.handlers.get? verb).isSome then r else { r with handlers := r.handlers.put verb handler }

/-- The loop of `registerRouter`: the first router of the path gets the handler. -/
def addToRouter (reg : Registration) : List Router → Option (List Router)
  | [] => none
  | r :: rs => if r.path = reg.path then some (r.add reg.verb reg.handler :: rs) else (addToRouter reg rs).map (r :: ·)

/-- `registerRouter`. -/
def registerRouter (compile : Chars → Option Regexp) (routers : List Router) (reg : Registration) : List Router :=
  if reg.shouldAdd then
    match addToRouter reg routers with
    | some routers' => routers'
    | none =>
      match newPathExpression compile reg.path with
      | some expression => routers ++ [⟨reg.path, expression, GoMap.empty.put reg.verb reg.handler⟩]
      | none => routers
  else routers

/-- The routers of a transport. -/
def routersOf (compile : Chars → Option Regexp) (regs : List Registration) : List Router :=
  regs.foldl (registerRouter compile) []

/-- The registration is for this method and template. -/
def Registration.isFor (path : Chars) (verb : String) (reg : Registration) : Bool :=
  reg.shouldAdd && decide (reg.path = path) && decide (reg.verb = verb)

/-- The template is registered, and compiles. -/
def Registered (compile : Chars → Option Regexp) (regs : List Registration) (path : Chars) (e : PathExpression) :
    Prop :=
  newPathExpression compile path = some e ∧ ∃ reg ∈ regs, reg.shouldAdd = true ∧ reg.path = path

/-- The routers have the templates that are registered, each with the first handler for a method. -/
structure Table (compile : Chars → Option Regexp) (regs : List Registration) (routers : List Router) : Prop where
  distinct : (routers.map Router.path).Nodup
  registered : ∀ path e, Registered compile regs path e ↔ ∃ r ∈ routers, r.path = path ∧ r.pathExpr = e
  handlers : ∀ r ∈ routers, ∀ verb, r.handlers.get? verb = (regs.find? (·.isFor r.path verb)).map (·.handler)

section Table

variable {compile : Chars → Option Regexp} {regs : List Registration} {routers : List Router} {reg : Registration}

theorem get?_add (r : Router) (verb verb' : String) (handler : Handler) :
    (r.add verb handler).handlers.get? verb' =
      (r.handlers.get? verb').or (if verb = verb' then some handler else none) := by
  unfold Router.add
  by_cases same : verb = verb'
  · subst same
    rw [if_pos rfl]
    split
    · next there =>
      obtain ⟨h, found⟩ := Option.isSome_iff_exists.1 there
      rw [found, Option.some_or]
    · next absent =>
      rw [Option.not_isSome_iff_eq_none.1 absent, GoMap.get?_put_self, Option.none_or]
  · rw [if_neg same, Option.or_none]
    split
    · rfl
    · exact GoMap.get?_put_ne _ _ fun same' => same same'.symm

theorem path_add (r : Router) (verb : String) (handler : Handler) :
    (r.add verb handler).path = r.path ∧ (r.add verb handler).pathExpr = r.pathExpr := by
  unfold Router.add
  split <;> exact ⟨rfl, rfl⟩

/-- Either no router has the path, or the first that has it is changed. -/
theorem addToRouter_cases (reg : Registration) (routers : List Router) :
    (addToRouter reg routers = none ∧ ∀ r ∈ routers, r.path ≠ reg.path) ∨
      ∃ before r after, routers = before ++ r :: after ∧ r.path = reg.path ∧ (∀ r ∈ before, r.path ≠ reg.path) ∧
        addToRouter reg routers = some (before ++ r.add reg.verb reg.handler :: after) := by
  induction routers with
  | nil => exact .inl ⟨rfl, fun r inside => absurd inside List.not_mem_nil⟩
  | cons r rs ih =>
    by_cases same : r.path = reg.path
    · refine .inr ⟨[], r, rs, rfl, same, fun r inside => absurd inside List.not_mem_nil, ?_⟩
      rw [addToRouter, if_pos same, List.nil_append]
    · rcases ih with ⟨absent, others⟩ | ⟨before, r', after, rfl, its, others, added⟩
      · refine .inl ⟨?_, List.forall_mem_cons.2 ⟨same, others⟩⟩
        rw [addToRouter, if_neg same, absent, Option.map_none]
      · refine .inr ⟨r :: before, r', after, rfl, its, List.forall_mem_cons.2 ⟨same, others⟩, ?_⟩
        rw [addToRouter, if_neg same, added, Option.map_some, List.cons_append]

/-- A registration that adds nothing for the path. -/
theorem find?_concat_other {path : Chars} {verb : String} (other : reg.isFor path verb = false) :
    (regs ++ [reg]).find? (·.isFor path verb) = regs.find? (·.isFor path verb) := by
  rw [List.find?_append, List.find?_singleton, other, if_neg Bool.false_ne_true, Option.or_none]

theorem isFor_other {path : Chars} (other : reg.path ≠ path) (verb : String) : reg.isFor path verb = false := by
  rw [Registration.isFor, decide_eq_false other, Bool.and_false, Bool.false_and]

theorem isFor_same (added : reg.shouldAdd = true) (verb : String) :
    reg.isFor reg.path verb = decide (reg.verb = verb) := by
  rw [Registration.isFor, added, decide_eq_true rfl, Bool.and_true, Bool.true_and]

/-- The first handler, with one more registration for the path. -/
theorem find?_concat_same (added : reg.shouldAdd = true) (verb : String) :
    ((regs ++ [reg]).find? (·.isFor reg.path verb)).map (·.handler) =
      ((regs.find? (·.isFor reg.path verb)).map (·.handler)).or
        (if reg.verb = verb then some reg.handler else none) := by
  rw [List.find?_append, List.find?_singleton, isFor_same added, Option.map_or]
  by_cases same : reg.verb = verb
  · rw [decide_eq_true same, if_pos rfl, if_pos same, Option.map_some]
  · rw [decide_eq_false same, if_neg Bool.false_ne_true, if_neg same, Option.map_none]

theorem registered_concat (path : Chars) (e : PathExpression) :
    Registered compile (regs ++ [reg]) path e ↔
      Registered compile regs path e ∨
        (newPathExpression compile path = some e ∧ reg.shouldAdd = true ∧ reg.path = path) := by
  simp only [Registered, List.mem_append, List.mem_singleton, or_and_right, exists_or, exists_eq_left, and_or_left]

/-- A registration that does not add. -/
theorem Table.skip (table : Table compile regs routers) (skipped : ¬ reg.shouldAdd = true) :
    Table compile (regs ++ [reg]) routers := by
  obtain ⟨distinct, registered, handlers⟩ := table
  have other : ∀ path verb, reg.isFor path verb = false := by
    intro path verb
    rw [Registration.isFor, Bool.eq_false_iff.2 skipped, Bool.false_and, Bool.false_and]
  refine ⟨distinct, fun path e => ?_, fun r inside verb => ?_⟩
  · rw [registered_concat, registered path e, or_iff_left]
    exact fun both => skipped both.2.1
  · rw [find?_concat_other (other _ _)]
    exact handlers r inside verb

/-- A template that does not compile. -/
theorem Table.broken (table : Table compile regs routers) (absent : ∀ r ∈ routers, r.path ≠ reg.path)
    (compiled : newPathExpression compile reg.path = none) : Table compile (regs ++ [reg]) routers := by
  obtain ⟨distinct, registered, handlers⟩ := table
  refine ⟨distinct, fun path e => ?_, fun r inside verb => ?_⟩
  · rw [registered_concat, registered path e, or_iff_left]
    rintro ⟨here, -, rfl⟩
    rw [compiled] at here
    cases here
  · rw [find?_concat_other (isFor_other (Ne.symm (absent r inside)) verb)]
    exact handlers r inside verb

/-- A template that is new. -/
theorem Table.fresh (table : Table compile regs routers) (added : reg.shouldAdd = true)
    (absent : ∀ r ∈ routers, r.path ≠ reg.path) {e : PathExpression}
    (compiled : newPathExpression compile reg.path = some e) :
    Table compile (regs ++ [reg]) (routers ++ [⟨reg.path, e, GoMap.empty.put reg.verb reg.handler⟩]) := by
  obtain ⟨distinct, registered, handlers⟩ := table
  -- nothing was registered for the path before
  have none_ : ∀ verb, regs.find? (·.isFor reg.path verb) = none := by
    intro verb
    rw [List.find?_eq_none]
    intro reg' inside for_
    simp only [Registration.isFor, Bool.and_eq_true, decide_eq_true_iff] at for_
    obtain ⟨r, there, same, -⟩ := (registered reg.path e).1 ⟨compiled, reg', inside, for_.1.1, for_.1.2⟩
    exact absent r there same
  refine ⟨?_, fun path e' => ?_, fun r inside verb => ?_⟩
  · rw [List.map_append, List.map_singleton, List.nodup_append]
    refine ⟨distinct, List.nodup_singleton _, fun path there path' here => ?_⟩
    obtain ⟨r, inside, rfl⟩ := List.mem_map.1 there
    rw [List.mem_singleton.1 here]
    exact absent r inside
  · rw [registered_concat, registered path e']
    simp only [List.mem_append, List.mem_singleton, or_and_right, exists_or, exists_eq_left]
    refine or_congr_right ⟨?_, ?_⟩
    · rintro ⟨here, -, rfl⟩
      rw [compiled] at here
      exact ⟨rfl, Option.some.inj here⟩
    · rintro ⟨rfl, rfl⟩
      exact ⟨compiled, added, rfl⟩
  · rcases List.mem_append.1 inside with before | here
    · rw [find?_concat_other (isFor_other (Ne.symm (absent r before)) verb)]
      exact handlers r before verb
    · rw [List.mem_singleton.1 here]
      dsimp only
      rw [find?_concat_same added, none_, Option.map_none, Option.none_or, GoMap.get?_put, GoMap.get?_empty]
      simp only [eq_comm]

/-- A template that is there. -/
theorem Table.known {before after : List Router} {r : Router} (table : Table compile regs (before ++ r :: after))
    (added : reg.shouldAdd = true) (its : r.path = reg.path) (others : ∀ r ∈ before, r.path ≠ reg.path) :
    Table compile (regs ++ [reg]) (before ++ r.add reg.verb reg.handler :: after) := by
  obtain ⟨distinct, registered, handlers⟩ := table
  have paths := path_add r reg.verb reg.handler
  refine ⟨?_, fun path e => ?_, fun r' inside verb => ?_⟩
  · simpa only [List.map_append, List.map_cons, paths] using distinct
  · have same : Registered compile (regs ++ [reg]) path e ↔ Registered compile regs path e := by
      rw [registered_concat, or_iff_left_iff_imp]
      rintro ⟨here, -, rfl⟩
      obtain ⟨-, earlier⟩ := (registered reg.path r.pathExpr).2
        ⟨r, List.mem_append_right _ List.mem_cons_self, its, rfl⟩
      exact ⟨here, earlier⟩
    rw [same, registered path e]
    simp only [List.mem_append, List.mem_cons, or_and_right, exists_or, exists_eq_left, paths]
  · have unchanged : r' ∈ before ++ r :: after → reg.path ≠ r'.path →
        r'.handlers.get? verb = ((regs ++ [reg]).find? (·.isFor r'.path verb)).map (·.handler) := by
      intro inside other
      rw [find?_concat_other (isFor_other other verb)]
      exact handlers r' inside verb
    rcases List.mem_append.1 inside with early | here
    · exact unchanged (List.mem_append_left _ early) (Ne.symm (others r' early))
    · rcases List.mem_cons.1 here with rfl | late
      · rw [get?_add, paths.1, its, find?_concat_same added,
          handlers r (List.mem_append_right _ List.mem_cons_self) verb, its]
      · refine unchanged (List.mem_append_right _ (List.mem_cons_of_mem _ late)) fun same => ?_
        rw [List.map_append, List.map_cons, List.nodup_append, List.nodup_cons] at distinct
        exact distinct.2.1.1 (List.mem_map.2 ⟨r', late, (its.trans same).symm⟩)

/-- What a registration does. -/
theorem Table.step (table : Table compile regs routers) (reg : Registration) :
    Table compile (regs ++ [reg]) (registerRouter compile routers reg) := by
  unfold registerRouter
  by_cases added : reg.shouldAdd = true
  · rw [if_pos added]
    rcases addToRouter_cases reg routers with ⟨new, absent⟩ | ⟨before, r, after, rfl, its, others, there⟩
    · rw [new]
      cases compiled : newPathExpression compile reg.path with
      | none => exact table.broken absent compiled
      | some e => exact table.fresh added absent compiled
    · rw [there]
      exact table.known added its others
  · rw [if_neg added]
    exact table.skip added

theorem Table.empty : Table compile [] [] where
  distinct := List.nodup_nil
  registered path e := by simp [Registered]
  handlers r inside := absurd inside List.not_mem_nil

theorem routersOf_table (compile : Chars → Option Regexp) (regs : List Registration) :
    Table compile regs (routersOf compile regs) := by
  induction regs using List.reverseRecOn with
  | nil => exact .empty
  | append_singleton regs reg ih =>
    rw [routersOf, List.foldl_append]
    exact ih.step reg

end Table

end KubeKey.Proxy
