import ModelShelf.Proofs.Uri.Schemes

/-!
How a repository is found. A place is a directory, or it is left to the factory of its scheme,
which is the one that was registered last and gets the text as it is written. A registry has no
repositories, whatever is registered.
-/

namespace ModelShelf

open ModelUri (Recased ReadAlike lowered splitScheme? stripScheme? registryScheme)
open Text

/-- What a repository is found by: a directory, or a factory and the text that it is given. -/
inductive Route where
  | directory (root : Path)
  | factory (make : RepositoryFactory) (text : String)

/-- The repository at the end of a route. -/
def Route.follow : Route → Result Repository
  | .directory root => .ok ⟨root⟩
  | .factory make text => make text

namespace Resolver

variable {t : FileTree}

/-! ### Registrations -/

/-- The resolver after some registrations, the first one first. -/
def ofCalls (runs : RunStore) (calls : List (String × RepositoryFactory)) : Resolver :=
  calls.foldl (fun r call => r.register call.1 call.2) (ofRuns runs)

/-- The factory that was registered last for a scheme in lower case. -/
def lastRegistered? (calls : List (String × RepositoryFactory)) (scheme : String) :
    Option RepositoryFactory :=
  (calls.reverse.find? fun call => lowered call.1.toList = scheme.toList).map Prod.snd

theorem lookup_register (r : Resolver) (name scheme : String) (make : RepositoryFactory) :
    (r.register name make).schemes.lookup scheme =
      if lowered name.toList = scheme.toList then some make else r.schemes.lookup scheme := by
  have same : name.map Char.toLower = scheme ↔ lowered name.toList = scheme.toList := by
    rw [← String.toList_inj, String.toList_map, lowered]
  rw [register, List.lookup_cons]
  by_cases h : lowered name.toList = scheme.toList
  · simp [h, same.2 h]
  · simp [h, beq_eq_false_iff_ne.2 fun heq => h (same.1 heq.symm)]

/-- By induction on the registrations from the last one back, a scheme has the factory that was
registered last. -/
theorem lookup_ofCalls (runs : RunStore) (calls : List (String × RepositoryFactory))
    (scheme : String) :
    (ofCalls runs calls).schemes.lookup scheme = lastRegistered? calls scheme := by
  induction calls using List.reverseRecOn with
  | nil => rfl
  | append_singleton calls call ih =>
    have last : ofCalls runs (calls ++ [call]) =
        (ofCalls runs calls).register call.1 call.2 := by
      rw [ofCalls, List.foldl_append]
      rfl
    rw [last, lookup_register, ih, lastRegistered?, lastRegistered?, List.reverse_append,
      List.reverse_singleton, List.singleton_append, List.find?_cons]
    by_cases h : lowered call.1.toList = scheme.toList
    · simp [h]
    · simp [h]

/-! ### Routes -/

/-- The route to a root that may be a path or a URI. -/
def rootRoute (r : Resolver) (root : String) : Result Route :=
  match splitScheme? root.toList with
  | none => .ok (.directory ⟨Config.withoutFileScheme root⟩)
  | some (scheme, _) =>
    if scheme = "file".toList then .ok (.directory ⟨Config.withoutFileScheme root⟩)
    else
      match r.schemes.lookup (String.ofList (lowered scheme)) with
      | some make => .ok (.factory make root)
      | none =>
        .error (.unsupportedUri ("No artifact repository registered for scheme '" ++
          String.ofList scheme ++ "' (URI '" ++ root ++ "')"))

/-- The route to the repository of a model. -/
def route (r : Resolver) (t : FileTree) (uri : ModelUri) : Result Route := do
  match uri with
  | .directory path => return .directory path
  | .run runId path => r.rootRoute (below (← r.runs.artifactUri t runId) path)
  | .remote _ text => r.rootRoute text
  | .registered .. =>
    .error (.unsupportedUri
      ("Cannot resolve '" ++ uri.display ++ "': no model registry is configured"))

theorem ofRoot_eq_route (r : Resolver) (root : String) :
    r.ofRoot root = r.rootRoute root >>= Route.follow := by
  rw [ofRoot, rootRoute]
  cases splitScheme? root.toList with
  | none => rfl
  | some parts =>
    simp only
    split
    · rfl
    · cases r.schemes.lookup (String.ofList (lowered parts.1)) <;> rfl

/-- Resolving a place is following its route. -/
theorem resolve_eq_route (r : Resolver) (t : FileTree) (uri : ModelUri) :
    r.resolve t uri = r.route t uri >>= Route.follow := by
  cases uri with
  | run runId path =>
    calc r.resolve t (.run runId path)
        = r.runs.artifactUri t runId >>= fun root => r.ofRoot (below root path) := rfl
      _ = r.runs.artifactUri t runId >>= fun root =>
          r.rootRoute (below root path) >>= Route.follow := by simp only [ofRoot_eq_route]
      _ = r.route t (.run runId path) >>= Route.follow := (bind_assoc _ _ _).symm
  | remote scheme text =>
    rw [resolve, route]
    exact r.ofRoot_eq_route text
  | directory path => rfl
  | registered name reference => rfl

/-- The route to a place that only its scheme knows ends at the factory of the scheme. -/
theorem route_remote {uri scheme text : String} (h : ModelUri.parse uri = .ok (.remote scheme text))
    (r : Resolver) (t : FileTree) :
    (∀ make, r.schemes.lookup scheme = some make →
      r.route t (.remote scheme text) = .ok (.factory make uri)) ∧
    (r.schemes.lookup scheme = none →
      ∃ message, r.route t (.remote scheme text) = .error (.unsupportedUri message)) := by
  obtain ⟨rfl, head, rest, hsplit, rfl, foreign⟩ := ModelUri.remote_of_parse h
  have hfile : head ≠ "file".toList := by
    rintro rfl
    exact foreign (by decide)
  rw [route, rootRoute, hsplit]
  simp only [if_neg hfile]
  refine ⟨fun make hmake => ?_, fun hnone => ?_⟩
  · rw [hmake]
  · rw [hnone]
    exact ⟨_, rfl⟩

/-- The route to the place that a URI names. -/
def routeOf (r : Resolver) (t : FileTree) (uri : String) : Result Route := do
  r.route t (← ModelUri.parse uri)

theorem modelInfo_eq_routeOf (r : Resolver) (t : FileTree) (uri : String) :
    r.modelInfo t uri = do
      let repository ← (← r.routeOf t uri).follow
      return (← Manifest.ofRepository repository t).info uri := by
  rw [modelInfo, routeOf]
  cases ModelUri.parse uri with
  | error e => rfl
  | ok place =>
    simp only [bind, Except.bind, resolve_eq_route]
    cases r.route t place <;> rfl

/-- Routes to one place from two texts: none, the same one, or those of one factory, which is given
the text that was written. -/
inductive RoutedAlike (uri uri' : String) : Result Route → Result Route → Prop
  | refused {e e' : Error} (code : e.code = e'.code) : RoutedAlike uri uri' (.error e) (.error e')
  | same (route : Result Route) : RoutedAlike uri uri' route route
  | factory (make : RepositoryFactory) :
      RoutedAlike uri uri' (.ok (.factory make uri)) (.ok (.factory make uri'))

theorem routedAlike_of_recased (r : Resolver) (t : FileTree) {uri uri' : String}
    (h : Recased uri uri') : RoutedAlike uri uri' (r.routeOf t uri) (r.routeOf t uri') := by
  have alike := ModelUri.readAlike_of_recased h
  rw [routeOf, routeOf]
  generalize hx : ModelUri.parse uri = x at alike
  generalize hx' : ModelUri.parse uri' = x' at alike
  cases alike with
  | refused code => exact .refused code
  | same => exact .same _
  | remote =>
    rename_i scheme low
    obtain ⟨found, missing⟩ := route_remote hx r t
    obtain ⟨found', missing'⟩ := route_remote hx' r t
    simp only [bind, Except.bind]
    cases hmake : r.schemes.lookup scheme with
    | some make =>
      rw [found make hmake, found' make hmake]
      exact .factory make
    | none =>
      obtain ⟨_, hmissing⟩ := missing hmake
      obtain ⟨_, hmissing'⟩ := missing' hmake
      rw [hmissing, hmissing']
      exact .refused rfl

/-! ### The registry -/

/-- Neither files nor factories are asked for the model at a URI. -/
structure Unreachable (uri : String) : Prop where
  route : ∃ e, ∀ (r : Resolver) (t : FileTree), r.routeOf t uri = .error e
  info : ∃ e, ∀ (r : Resolver) (t : FileTree), r.modelInfo t uri = .error e
  set : ∀ (r : Resolver) (signature : Signature) (t : FileTree), r.setSignature uri signature t =
    .error (.unsupportedUri "Model URIs with the `models:/` scheme are not supported.") t

theorem parse_of_registry {uri : String} (h : registryScheme.toList <+: lowered uri.toList) :
    (∃ e, ModelUri.parse uri = .error e) ∨
    ∃ name reference, ModelUri.parse uri = .ok (.registered name reference) := by
  have front : lowered (uri.toList.take registryScheme.toList.length) = registryScheme.toList := by
    rw [lowered, List.map_take]
    exact (List.prefix_iff_eq_take.1 h).symm
  rw [ModelUri.parse_registry (List.take_append_drop _ _).symm front]
  cases hfound : ModelUri.registered? (uri.toList.drop registryScheme.toList.length) with
  | none => exact .inl ⟨_, rfl⟩
  | some x =>
    have registered := (ModelUri.display_of_registered? hfound).1
    cases x with
    | registered name reference => exact .inr ⟨name, reference, rfl⟩
    | _ => cases registered

theorem unreachable_of_registry {uri : String}
    (h : registryScheme.toList <+: lowered uri.toList) : Unreachable uri := by
  have route : ∃ e, ∀ (r : Resolver) (t : FileTree), r.routeOf t uri = .error e := by
    obtain ⟨e, herror⟩ | ⟨name, reference, hok⟩ := parse_of_registry h
    · refine ⟨e, fun r t => ?_⟩
      rw [routeOf, herror]
      rfl
    · refine ⟨.unsupportedUri ("Cannot resolve '" ++ (ModelUri.registered name reference).display ++
        "': no model registry is configured"), fun r t => ?_⟩
      rw [routeOf, hok]
      rfl
  have stripped : (stripScheme? registryScheme uri.toList).isSome = true := by
    rw [Option.isSome_iff_ne_none]
    exact fun hnone => ModelUri.stripScheme?_eq_none.1 hnone h
  refine ⟨route, ?_, fun r signature t => ?_⟩
  · obtain ⟨e, hroute⟩ := route
    refine ⟨e, fun r t => ?_⟩
    rw [modelInfo_eq_routeOf, hroute]
    rfl
  · rw [setSignature, if_pos stripped]
    rfl

/-- After any registrations, a URI leads to the same place whatever the case of its scheme. A place
that only its scheme knows is left to the factory that was registered last for the scheme, with the
text as it is written, or refused if there is none; and a registry is out of reach. -/
theorem routes_ignore_case (runs : RunStore) (calls : List (String × RepositoryFactory))
    (t : FileTree) {uri uri' : String} (h : Recased uri uri') :
    ReadAlike uri uri' (ModelUri.parse uri) (ModelUri.parse uri') ∧
    RoutedAlike uri uri' ((ofCalls runs calls).routeOf t uri)
      ((ofCalls runs calls).routeOf t uri') ∧
    (∀ place, (ofCalls runs calls).resolve t place =
      (ofCalls runs calls).route t place >>= Route.follow) ∧
    (∀ path, (ofCalls runs calls).route t (.directory path) = .ok (.directory path)) ∧
    (∀ any scheme text, ModelUri.parse any = .ok (.remote scheme text) →
      (∀ make, lastRegistered? calls scheme = some make →
        (ofCalls runs calls).route t (.remote scheme text) = .ok (.factory make any)) ∧
      (lastRegistered? calls scheme = none → ∃ message,
        (ofCalls runs calls).route t (.remote scheme text) = .error (.unsupportedUri message))) ∧
    ∀ any : String, registryScheme.toList <+: lowered any.toList → Unreachable any := by
  refine ⟨ModelUri.readAlike_of_recased h, routedAlike_of_recased _ t h,
    resolve_eq_route _ t, fun _ => rfl, fun any scheme text hparse => ?_,
    fun any => unreachable_of_registry⟩
  rw [← lookup_ofCalls runs]
  exact route_remote hparse _ t

/-- A scheme that is registered twice, with a repository of its own for each URI in the end. -/
def schemeCalls : List (String × RepositoryFactory) :=
  [("S3", fun _ => .ok ⟨⟨"first"⟩⟩), ("s3", fun uri => .ok ⟨⟨uri⟩⟩)]

theorem routes_ignore_case_sample :
    Recased "S3://b" "s3://b" ∧
    RoutedAlike "S3://b" "s3://b"
      ((ofCalls ⟨⟨"runs"⟩⟩ schemeCalls).routeOf .empty "S3://b")
      ((ofCalls ⟨⟨"runs"⟩⟩ schemeCalls).routeOf .empty "s3://b") ∧
    (ofCalls ⟨⟨"runs"⟩⟩ schemeCalls).resolve .empty (.remote "s3" "S3://b") =
      .ok ⟨⟨"S3://b"⟩⟩ := by
  have recased :
      Recased ("S3" ++ ModelUri.schemeMark ++ "b") ("s3" ++ ModelUri.schemeMark ++ "b") :=
    .named "b" (by decide) (by decide)
  obtain ⟨-, routed, resolved, -, remote, -⟩ :=
    routes_ignore_case ⟨⟨"runs"⟩⟩ schemeCalls .empty recased
  refine ⟨recased, routed, ?_⟩
  rw [resolved, (remote "S3://b" "s3" "S3://b" rfl).1 _ rfl]
  rfl

end Resolver

end ModelShelf
