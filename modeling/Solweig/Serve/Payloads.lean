import Solweig.Lib.Lru
import Solweig.Lib.Run
import Solweig.Patch.Errors
import Solweig.Serve.Results

/-!
# Serving payloads

Requests read a result while others publish, the process is killed and started again, and a
cache keeps decompressed payloads.
-/

namespace Solweig.Serve

open Solweig.Lib Solweig.Patch

/-! ## The media type -/

inductive MediaType where
  | zstd
  | identity
  deriving DecidableEq

def MediaType.name : MediaType → String
  | .zstd => "application/vnd.solweig.patch+zstd"
  | .identity => "application/vnd.solweig.patch+identity"

/-- `str.strip` on the text of a header -/
def strip (text : List Char) : List Char :=
  ((text.dropWhile isBlank).reverse.dropWhile isBlank).reverse
where
  isBlank (c : Char) : Bool :=
    c.isWhitespace ∨ c.toNat = 0x0b ∨ c.toNat = 0x0c ∨ (0x1c ≤ c.toNat ∧ c.toNat ≤ 0x1f) ∨
      c.toNat = 0x85 ∨ c.toNat = 0xa0

/-- The ranges of the header without their parameters. -/
def mediaRanges (accept : String) : List String :=
  ((accept.toList.splitOn ',').map fun part =>
    String.ofList ((strip (part.takeWhile (· ≠ ';'))).map Char.toLower)).filter (· ≠ "")

def acceptable (ranges : List String) (mediaType : MediaType) : Bool :=
  mediaType.name ∈ ranges ∨ "*/*" ∈ ranges ∨
    ("application/".toList.isPrefixOf mediaType.name.toList ∧ "application/*" ∈ ranges)

/-- A header without a range says nothing. -/
def selectPayloadMediaType (accept : Option String) : Option MediaType :=
  let ranges := mediaRanges (accept.getD "")
  let zstdOk := ranges = [] ∨ acceptable ranges .zstd
  let identityOk := ranges ≠ [] ∧ acceptable ranges .identity
  if zstdOk then some .zstd else if identityOk then some .identity else none

/-! ## The cache of decompressed payloads -/

/-- The entries by the checksum of the stored payload, the least recently used one first, with
the sum of their lengths. -/
structure IdentityPayloadCache where
  entries : List (String × (Bytes × String))
  totalBytes : Int
  maxTotalBytes : Nat

namespace IdentityPayloadCache

def get (cache : IdentityPayloadCache) (checksum : String) :
    Option (Bytes × String) × IdentityPayloadCache :=
  match Lru.lookup checksum cache.entries with
  | none => (none, cache)
  | some entry =>
    (some entry, { cache with entries := Lru.touch checksum entry cache.entries })

/-- `while self._total_bytes > self._max_total_bytes and self._entries` -/
def popOldest (maxTotalBytes : Nat) :
    Int → List (String × (Bytes × String)) → Int × List (String × (Bytes × String))
  | totalBytes, [] => (totalBytes, [])
  | totalBytes, evicted :: entries =>
    if maxTotalBytes < totalBytes then
      popOldest maxTotalBytes (totalBytes - evicted.2.1.length) entries
    else (totalBytes, evicted :: entries)

def put (cache : IdentityPayloadCache) (checksum : String) (payload : Bytes)
    (identityChecksum : String) : IdentityPayloadCache :=
  if cache.maxTotalBytes < payload.length then cache
  else
    let replaced : Int :=
      match Lru.lookup checksum cache.entries with
      | none => 0
      | some old => old.1.length
    let popped := popOldest cache.maxTotalBytes (cache.totalBytes - replaced + payload.length)
      (Lru.touch checksum (payload, identityChecksum) cache.entries)
    { cache with
      entries := popped.2
      totalBytes := popped.1 }

end IdentityPayloadCache

/-! ## The route -/

structure PayloadRequest where
  scenarioId : String
  sceneVersion : Nat
  accept : Option String
  ifNoneMatch : Option String

inductive Response where
  | scenarioNotFound
  | resultNotReady
  | notAcceptable
  | notModified (etag : String)
  | payload (content : Bytes) (mediaType : MediaType) (etag checksum : String)
      (sceneVersion : Nat) (exact : Bool)
  /-- An exception that no handler catches. -/
  | raised

/-- `str.removeprefix` -/
def removePrefix (start text : List Char) : List Char :=
  if start.isPrefixOf text then text.drop start.length else text

def payloadEtag (checksum : String) : String :=
  "\"sha256-" ++ String.ofList (removePrefix "sha256:".toList checksum.toList) ++ "\""

def respond (request : PayloadRequest) (record : ResultRecord) (mediaType : MediaType)
    (payload : Bytes) (checksum : String) : Response :=
  let etag := payloadEtag checksum
  if request.ifNoneMatch = some etag then .notModified etag
  else .payload payload mediaType etag checksum record.sceneVersion record.exact

/-- Where a request stands: between two of these another one may run. -/
inductive Stage where
  | required
  | found (record : ResultRecord)
  | loaded (record : ResultRecord) (payload : Bytes)
  | missed (record : ResultRecord) (payload : Bytes)
  | done (response : Response)

structure Task where
  request : PayloadRequest
  stage : Stage

section Route

variable (lib : Libraries)

/-- One step of a request. -/
def getResultPayload (store : ResultStore) (cache : IdentityPayloadCache)
    (request : PayloadRequest) : Stage → Stage × IdentityPayloadCache
  | .required =>
    match store.results request.scenarioId request.sceneVersion with
    | none => (.done .resultNotReady, cache)
    | some record => (.found record, cache)
  | .found record =>
    match store.files record.payloadPath with
    | none => (.done .raised, cache)
    | some payload => (.loaded record payload, cache)
  | .loaded record payload =>
    match selectPayloadMediaType request.accept with
    | none => (.done .notAcceptable, cache)
    | some .zstd => (.done (respond request record .zstd payload record.checksum), cache)
    | some .identity =>
      match cache.get record.checksum with
      | (some (payload, checksum), cache) =>
        (.done (respond request record .identity payload checksum), cache)
      | (none, cache) => (.missed record payload, cache)
  | .missed record payload =>
    match decompressPayload lib payload record.manifest.codec with
    | .error _ => (.done .raised, cache)
    | .ok raw =>
      let checksum := checksumPayload lib raw
      (.done (respond request record .identity raw checksum),
        cache.put record.checksum raw checksum)
  | .done response => (.done response, cache)

end Route

/-! ## The server -/

structure Server where
  store : ResultStore
  cache : IdentityPayloadCache
  tasks : List Task

inductive ServerEvent (lib : Libraries) where
  | create (fate : PublishFate) (scenarioId : String) (baseline : Option (Publication lib))
  | edit (scenarioId : String)
  | publish (fate : PublishFate) (scenarioId : String) (sceneVersion : Nat)
      (p : Publication lib) (live : Bool)
  | reset (fate : PublishFate) (scenarioId : String) (p : Publication lib)
  | republish (fate : PublishFate) (scenarioId : String) (sourceVersion targetVersion : Nat)
      (override : Option ManifestOverride) (live : Bool)
  | request (request : PayloadRequest)
  | advance (task : Nat)
  | restart

/-- A new process on the same store. -/
def Server.restarted (s : Server) : Server :=
  { s with
    cache := { s.cache with
      entries := []
      totalBytes := 0 }
    tasks := [] }

/-- An operation on the store. Where it is killed, the process goes with it. -/
def Server.operate (s : Server) (operation : Txn ResultStore StoreError Unit) : Server :=
  match operation s.store with
  | (.error (.stopped .killed), store) => Server.restarted { s with store }
  | (_, store) => { s with store }

def serverStep (lib : Libraries) (render : ResultManifest → Bytes) (s : Server) :
    ServerEvent lib → Option Server
  | .create fate scenarioId baseline =>
    some (s.operate (createScenario render fate scenarioId baseline))
  | .edit scenarioId => some (s.operate (advanceScene scenarioId))
  | .publish fate scenarioId sceneVersion p live =>
    some (s.operate (publishResult render fate scenarioId sceneVersion p live))
  | .reset fate scenarioId p => some (s.operate (resetScenario render fate scenarioId p))
  | .republish fate scenarioId sourceVersion targetVersion override live =>
    some (s.operate
      (republishResultAtVersion render fate scenarioId sourceVersion targetVersion override live))
  | .request request =>
    let stage : Stage :=
      if (s.store.sceneVersion request.scenarioId).isSome then .required
      else .done .scenarioNotFound
    some { s with tasks := s.tasks ++ [⟨request, stage⟩] }
  | .advance i =>
    match s.tasks[i]? with
    | none => none
    | some task =>
      let (stage, cache) := getResultPayload lib s.store s.cache task.request task.stage
      some { s with
        cache
        tasks := s.tasks.set i ⟨task.request, stage⟩ }
  | .restart => some s.restarted

def initialServer (maxTotalBytes : Nat) : Server where
  store :=
    { sceneVersion := fun _ => none
      results := fun _ _ => none
      files := fun _ => none }
  cache := ⟨[], 0, maxTotalBytes⟩
  tasks := []

/-! ## What the cache holds -/

section Cache

variable {lib : Libraries} {cache : IdentityPayloadCache}

/-- The entries are decompressed publications, by the checksum of what is stored. -/
def CacheHolds (lib : Libraries) (cache : IdentityPayloadCache) : Prop :=
  ∀ checksum entry, (checksum, entry) ∈ cache.entries → ∃ p : Publication lib,
    checksum = checksumPayload lib p.payload ∧ entry = (p.raw, checksumPayload lib p.raw)

theorem mem_touch {K V : Type} [DecidableEq K] {key : K} {value : V} {entries : List (K × V)}
    {e : K × V} (h : e ∈ Lru.touch key value entries) : e ∈ entries ∨ e = (key, value) := by
  unfold Lru.touch at h
  rcases List.mem_append.mp h with h | h
  · exact Or.inl (List.mem_filter.mp h).1
  · exact Or.inr (List.mem_singleton.mp h)

theorem CacheHolds.get (h : CacheHolds lib cache) (checksum : String) :
    CacheHolds lib (cache.get checksum).2 := by
  unfold IdentityPayloadCache.get
  split
  · exact h
  · next entry hfound =>
    intro key e hmem
    rcases mem_touch hmem with hold | hnew
    · exact h key e hold
    · obtain ⟨rfl, rfl⟩ := Prod.mk.inj hnew
      exact h _ _ (Lru.lookup_some hfound)

theorem mem_popOldest {maxTotalBytes : Nat} {totalBytes : Int}
    {entries : List (String × (Bytes × String))} {e : String × (Bytes × String)}
    (h : e ∈ (IdentityPayloadCache.popOldest maxTotalBytes totalBytes entries).2) :
    e ∈ entries := by
  induction entries generalizing totalBytes with
  | nil => exact h
  | cons first entries ih =>
    rw [IdentityPayloadCache.popOldest] at h
    split at h
    · exact List.mem_cons_of_mem first (ih h)
    · exact h

theorem CacheHolds.put (h : CacheHolds lib cache) (p : Publication lib) :
    CacheHolds lib (cache.put (checksumPayload lib p.payload) p.raw (checksumPayload lib p.raw)) := by
  unfold IdentityPayloadCache.put
  split
  · exact h
  · intro key e hmem
    rcases mem_touch (mem_popOldest hmem) with hold | hnew
    · exact h key e hold
    · obtain ⟨rfl, rfl⟩ := Prod.mk.inj hnew
      exact ⟨p, rfl, rfl⟩

theorem Publication.decompress (p : Publication lib) :
    decompressPayload lib p.payload p.manifest.codec = .ok p.raw :=
  decompressPayload_compress p.raw p.compression

theorem raw_of_checksum (hsha : Function.Injective lib.sha256) {p q : Publication lib}
    (h : checksumPayload lib p.payload = checksumPayload lib q.payload) : p.raw = q.raw := by
  unfold checksumPayload at h
  have hpayload : p.payload = q.payload := hsha (String.append_right_inj _ |>.mp h)
  have hq := q.decompress
  rw [← hpayload] at hq
  have hp := p.decompress
  unfold decompressPayload at hp hq
  rw [refuseIf_false (by simp [p.compression]), except_ok_bind] at hp
  rw [refuseIf_false (by simp [q.compression]), except_ok_bind] at hq
  exact Except.ok.inj (hp.symm.trans hq)

end Cache

/-! ## What the requests know -/

section Sound

variable {lib : Libraries} {render : ResultManifest → Bytes} {s t : Server} {store : ResultStore}
  {request : PayloadRequest} {record : ResultRecord}

/-- What the route gives for a publication, without a cache. -/
def plainResponse (request : PayloadRequest) (record : ResultRecord) (p : Publication lib) :
    Response :=
  match selectPayloadMediaType request.accept with
  | none => .notAcceptable
  | some .zstd => respond request record .zstd p.payload (checksumPayload lib p.payload)
  | some .identity => respond request record .identity p.raw (checksumPayload lib p.raw)

/-- The row of the request, with the publication in its files. -/
def Published (lib : Libraries) (render : ResultManifest → Bytes) (store : ResultStore)
    (request : PayloadRequest) (record : ResultRecord) (p : Publication lib) : Prop :=
  store.results request.scenarioId request.sceneVersion = some record ∧
    Held lib render store.files request.scenarioId request.sceneVersion record p

def StageSound (lib : Libraries) (render : ResultManifest → Bytes) (store : ResultStore)
    (request : PayloadRequest) : Stage → Prop
  | .required => True
  | .found record => ∃ p : Publication lib, Published lib render store request record p
  | .loaded record payload =>
    ∃ p : Publication lib, Published lib render store request record p ∧ payload = p.payload
  | .missed record payload =>
    (∃ p : Publication lib, Published lib render store request record p ∧ payload = p.payload) ∧
      selectPayloadMediaType request.accept = some .identity
  | .done response =>
    response = .scenarioNotFound ∨ response = .resultNotReady ∨
      ∃ record, ∃ p : Publication lib, Published lib render store request record p ∧
        response = plainResponse request record p

theorem Published.mono {store' : ResultStore} {p : Publication lib}
    (h : Published lib render store request record p) (hextends : Extends lib render store store') :
    Published lib render store' request record p := by
  refine ⟨hextends.rows _ _ _ h.1, h.2.congr (hextends.files _ _ ?_)⟩
  rw [h.1]
  rfl

theorem StageSound.mono {store' : ResultStore} {stage : Stage}
    (h : StageSound lib render store request stage) (hextends : Extends lib render store store') :
    StageSound lib render store' request stage := by
  cases stage with
  | required => trivial
  | found record =>
    obtain ⟨p, hp⟩ := h
    exact ⟨p, hp.mono hextends⟩
  | loaded record payload =>
    obtain ⟨p, hp, hpayload⟩ := h
    exact ⟨p, hp.mono hextends, hpayload⟩
  | missed record payload =>
    obtain ⟨⟨p, hp, hpayload⟩, haccept⟩ := h
    exact ⟨⟨p, hp.mono hextends, hpayload⟩, haccept⟩
  | done response =>
    rcases h with h | h | ⟨record, p, hp, hresponse⟩
    · exact Or.inl h
    · exact Or.inr (Or.inl h)
    · exact Or.inr (Or.inr ⟨record, p, hp.mono hextends, hresponse⟩)

theorem getResultPayload_sound (hsha : Function.Injective lib.sha256)
    (hrows : RowsHeld lib render store) {cache : IdentityPayloadCache}
    (hcache : CacheHolds lib cache) {stage : Stage}
    (h : StageSound lib render store request stage) :
    StageSound lib render store request (getResultPayload lib store cache request stage).1 ∧
      CacheHolds lib (getResultPayload lib store cache request stage).2 := by
  cases stage with
  | required =>
    simp only [getResultPayload]
    cases hrow : store.results request.scenarioId request.sceneVersion with
    | none => exact ⟨Or.inr (Or.inl rfl), hcache⟩
    | some record =>
      obtain ⟨p, hp⟩ := hrows _ _ _ hrow
      exact ⟨⟨p, hrow, hp⟩, hcache⟩
  | found record =>
    obtain ⟨p, hrow, hp⟩ := h
    have hfile : store.files record.payloadPath = some p.payload := by
      rw [hp.2.2.2.1]
      exact hp.2.2.2.2.1
    simp only [getResultPayload, hfile]
    exact ⟨⟨p, ⟨hrow, hp⟩, rfl⟩, hcache⟩
  | loaded record payload =>
    obtain ⟨p, hp, rfl⟩ := h
    have hchecksum : record.checksum = checksumPayload lib p.payload := hp.2.2.2.1
    simp only [getResultPayload]
    cases haccept : selectPayloadMediaType request.accept with
    | none =>
      refine ⟨Or.inr (Or.inr ⟨record, p, hp, ?_⟩), hcache⟩
      rw [plainResponse, haccept]
    | some mediaType =>
      cases mediaType with
      | zstd =>
        refine ⟨Or.inr (Or.inr ⟨record, p, hp, ?_⟩), hcache⟩
        rw [plainResponse, haccept, hchecksum]
      | identity =>
        have hget := hcache.get record.checksum
        cases hfound : Lru.lookup record.checksum cache.entries with
        | none =>
          simp only [IdentityPayloadCache.get, hfound]
          exact ⟨⟨⟨p, hp, rfl⟩, haccept⟩, hcache⟩
        | some entry =>
          obtain ⟨q, hq, rfl⟩ := hcache _ _ (Lru.lookup_some hfound)
          have hraw : q.raw = p.raw := raw_of_checksum hsha (hq.symm.trans hchecksum)
          simp only [IdentityPayloadCache.get, hfound] at hget ⊢
          refine ⟨Or.inr (Or.inr ⟨record, p, hp, ?_⟩), hget⟩
          rw [plainResponse, haccept, hraw]
  | missed record payload =>
    obtain ⟨⟨p, hp, rfl⟩, haccept⟩ := h
    have hchecksum : record.checksum = checksumPayload lib p.payload := hp.2.2.2.1
    have hraw : decompressPayload lib p.payload record.manifest.codec = .ok p.raw := by
      rw [hp.2.2.1]
      exact p.decompress
    simp only [getResultPayload, hraw]
    refine ⟨Or.inr (Or.inr ⟨record, p, hp, ?_⟩), ?_⟩
    · rw [plainResponse, haccept]
    · rw [hchecksum]
      exact hcache.put p
  | done response => exact ⟨h, hcache⟩

/-! ## In every run -/

structure ServerSound (lib : Libraries) (render : ResultManifest → Bytes) (s : Server) : Prop where
  rows : RowsHeld lib render s.store
  cache : CacheHolds lib s.cache
  tasks : ∀ task ∈ s.tasks, StageSound lib render s.store task.request task.stage

theorem operate_sound (h : ServerSound lib render s) {operation : Txn ResultStore StoreError Unit}
    (hextends : Extends lib render s.store (operation s.store).2) :
    ServerSound lib render (s.operate operation) ∧ (s.operate operation).store =
      (operation s.store).2 := by
  have hrows := hextends.rowsHeld h.rows
  have hkept : ServerSound lib render { s with store := (operation s.store).2 } :=
    ⟨hrows, h.cache, fun task htask => (h.tasks task htask).mono hextends⟩
  have hnew : ServerSound lib render
      (Server.restarted { s with store := (operation s.store).2 }) := by
    refine ⟨hrows, fun checksum entry hmem => ?_, fun task htask => ?_⟩
    · cases hmem
    · cases htask
  rcases hrun : operation s.store with ⟨r, store⟩
  rw [hrun] at hkept hnew
  simp only [Server.operate, hrun]
  split
  · next heq =>
    obtain ⟨-, rfl⟩ := Prod.mk.inj heq
    exact ⟨hnew, rfl⟩
  · next heq =>
    obtain ⟨-, rfl⟩ := Prod.mk.inj heq
    exact ⟨hkept, rfl⟩

theorem serverStep_sound (hsha : Function.Injective lib.sha256) (h : ServerSound lib render s)
    {event : ServerEvent lib} (hstep : serverStep lib render s event = some t) :
    ServerSound lib render t ∧ Extends lib render s.store t.store := by
  have hoperate : ∀ operation : Txn ResultStore StoreError Unit,
      Extends lib render s.store (operation s.store).2 → s.operate operation = t →
      ServerSound lib render t ∧ Extends lib render s.store t.store := by
    rintro operation hextends rfl
    obtain ⟨hsound, hstore⟩ := operate_sound h hextends
    exact ⟨hsound, hstore ▸ hextends⟩
  cases event with
  | create fate scenarioId baseline =>
    exact hoperate _ (createScenario_extends baseline s.store (.refl _)) (Option.some.inj hstep)
  | edit scenarioId =>
    exact hoperate _ (advanceScene_extends s.store (.refl _)) (Option.some.inj hstep)
  | publish fate scenarioId sceneVersion p live =>
    exact hoperate _ (publishResult_extends p live s.store (.refl _)) (Option.some.inj hstep)
  | reset fate scenarioId p =>
    exact hoperate _ (resetScenario_extends p s.store (.refl _)) (Option.some.inj hstep)
  | republish fate scenarioId sourceVersion targetVersion override live =>
    exact hoperate _ (republishResultAtVersion_extends h.rows) (Option.some.inj hstep)
  | request request =>
    obtain rfl := Option.some.inj hstep
    refine ⟨⟨h.rows, h.cache, fun task htask => ?_⟩, .refl _⟩
    rcases List.mem_append.mp htask with hold | hnew
    · exact h.tasks task hold
    · rw [List.mem_singleton.mp hnew]
      dsimp only
      split
      · trivial
      · exact Or.inl rfl
  | advance i =>
    simp only [serverStep] at hstep
    cases htask : s.tasks[i]? with
    | none =>
      rw [htask] at hstep
      cases hstep
    | some task =>
      rw [htask] at hstep
      obtain rfl := Option.some.inj hstep
      obtain ⟨hstage, hcache⟩ := getResultPayload_sound hsha h.rows h.cache
        (h.tasks task (List.mem_of_getElem? htask))
      refine ⟨⟨h.rows, hcache, fun other hother => ?_⟩, .refl _⟩
      rcases List.mem_or_eq_of_mem_set hother with hold | rfl
      · exact h.tasks other hold
      · exact hstage
  | restart =>
    obtain rfl := Option.some.inj hstep
    refine ⟨⟨h.rows, fun checksum entry hmem => ?_, fun task htask => ?_⟩, .refl _⟩
    · cases hmem
    · cases htask

theorem initialServer_sound (maxTotalBytes : Nat) :
    ServerSound lib render (initialServer maxTotalBytes) where
  rows _ _ _ h := by cases h
  cache _ _ h := by cases h
  tasks _ h := by cases h

theorem run_serverSound (hsha : Function.Injective lib.sha256) {maxTotalBytes : Nat}
    {events : List (ServerEvent lib)}
    (hrun : run (serverStep lib render) (initialServer maxTotalBytes) events = some s) :
    ServerSound lib render s :=
  run_invariant (C := fun _ _ => True) (fun _ _ _ h _ hstep => (serverStep_sound hsha h hstep).1)
    (initialServer_sound maxTotalBytes) (eachStep_of_forall (fun _ _ => trivial) _ _) hrun

/-- Whatever runs between its steps and whatever the cache holds, a request that is answered has
what the publication of its version gives, unless there was none when it looked. -/
theorem responses_as_published (hsha : Function.Injective lib.sha256) {maxTotalBytes : Nat}
    {events : List (ServerEvent lib)}
    (hrun : run (serverStep lib render) (initialServer maxTotalBytes) events = some s)
    {response : Response} (htask : ⟨request, .done response⟩ ∈ s.tasks) :
    response = .scenarioNotFound ∨ response = .resultNotReady ∨
      ∃ record, ∃ p : Publication lib, Published lib render s.store request record p ∧
        response = plainResponse request record p :=
  (run_serverSound hsha hrun).tasks _ htask

/-- A result that is published stays as it is, row and files, through every later event. -/
theorem published_results_stay (hsha : Function.Injective lib.sha256) {maxTotalBytes : Nat}
    {events later : List (ServerEvent lib)}
    (hrun : run (serverStep lib render) (initialServer maxTotalBytes) events = some s)
    (hlater : run (serverStep lib render) s later = some t) {scenarioId : String}
    {sceneVersion : Nat} {record : ResultRecord}
    (hrow : s.store.results scenarioId sceneVersion = some record) :
    t.store.results scenarioId sceneVersion = some record ∧ ∃ p : Publication lib,
      Held lib render s.store.files scenarioId sceneVersion record p ∧
      Held lib render t.store.files scenarioId sceneVersion record p := by
  have hsound := run_serverSound hsha hrun
  have hextends : Extends lib render s.store t.store :=
    run_relation (I := ServerSound lib render) (C := fun _ _ => True)
      (R := fun s t => Extends lib render s.store t.store) (fun s => .refl s.store)
      (fun _ _ _ => Extends.trans) (fun _ _ _ h _ hstep => serverStep_sound hsha h hstep) hsound
      (eachStep_of_forall (fun _ _ => trivial) _ _) hlater
  obtain ⟨p, hp⟩ := hsound.rows _ _ _ hrow
  refine ⟨hextends.rows _ _ _ hrow, p, hp, hp.congr (hextends.files _ _ ?_)⟩
  rw [hrow]
  rfl

/-! ## A run -/

/-- A digest that keeps all of its bytes. -/
def legible (payload : Bytes) : String := String.ofList (payload.map fun b => Char.ofNat b.toNat)

theorem legible_injective : Function.Injective legible := by
  intro payload other h
  have hchar (b : Byte) : (Char.ofNat b.toNat).toNat = b.toNat := by
    have hvalid : b.toNat.isValidChar := Or.inl (b.isLt.trans (by decide))
    rw [Char.ofNat, dif_pos hvalid]
    rfl
  apply List.map_injective_iff.mpr _ (String.ofList_injective h)
  intro b c hbc
  apply BitVec.eq_of_toNat_eq
  exact (hchar b).symm.trans ((congrArg Char.toNat hbc).trans (hchar c))

def legibleLibraries : Libraries := { storedLibraries with sha256 := legible }

def smallPublication : Publication legibleLibraries where
  manifest :=
    { codec :=
        { schemaVersion := 1
          window := none
          vars := []
          compression := "zstd"
          checksum := some (checksumPayload legibleLibraries (stored.compress [1, 2])) }
      sceneVersion := 0
      payloadUrl := resultPayloadUrl "s" 0
      limitations := some (.list ["no wind"])
      others := ∅ }
  raw := [1, 2]
  exact := true
  compression := rfl
  checksum := rfl

def runsThrough : PublishFate := ⟨.runs, .runs, .runs, .runs, .runs, .runs⟩

/-- The process is killed between the two replacements. -/
def killedBetween : PublishFate := ⟨.runs, .runs, .runs, .runs, .killed, .runs⟩

def identityRequest : PayloadRequest := ⟨"s", 1, some "application/vnd.solweig.patch+identity", none⟩

/-- What an edit that changes nothing leaves undone is disclosed. -/
def disclosure : ManifestOverride := ⟨some ["a family was skipped"], [], nofun⟩

/-- The publication that is killed is made again, and stands for the next version too. -/
def storedEvents : List (ServerEvent legibleLibraries) :=
  [.create runsThrough "s" none, .publish killedBetween "s" 0 smallPublication true,
    .publish runsThrough "s" 0 smallPublication true, .edit "s",
    .republish runsThrough "s" 0 1 (some disclosure) true]

/-- The second request finds the payload that the first one has decompressed. -/
def servedEvents : List (ServerEvent legibleLibraries) :=
  [.request identityRequest, .advance 0, .advance 0, .advance 0, .advance 0,
    .request identityRequest, .advance 1, .advance 1, .advance 1]

def disclosed : Publication legibleLibraries := smallPublication.republished (some disclosure) "s" 1

def disclosedRecord : ResultRecord where
  sceneVersion := 1
  exact := true
  manifest := disclosed.manifest
  payloadPath := ⟨"s", 1, .payload, false⟩
  checksum := checksumPayload legibleLibraries disclosed.payload

def serverAfter (events : List (ServerEvent legibleLibraries)) : Server :=
  (run (serverStep legibleLibraries fun _ => []) (initialServer 1024) events).getD
    (initialServer 1024)

theorem served_run :
    run (serverStep legibleLibraries fun _ => []) (initialServer 1024)
      (storedEvents ++ servedEvents) = some (serverAfter (storedEvents ++ servedEvents)) := by
  have hsome : (run (serverStep legibleLibraries fun _ => []) (initialServer 1024)
      (storedEvents ++ servedEvents)).isSome = true := by decide +kernel
  obtain ⟨s, hs⟩ := Option.isSome_iff_exists.mp hsome
  rw [serverAfter, hs, Option.getD_some]

theorem stored_run :
    run (serverStep legibleLibraries fun _ => []) (initialServer 1024) storedEvents =
      some (serverAfter storedEvents) := by
  have h := served_run
  rw [run_append] at h
  obtain ⟨s, hs, -⟩ := Option.bind_eq_some_iff.mp h
  rw [serverAfter, hs, Option.getD_some]

theorem later_run :
    run (serverStep legibleLibraries fun _ => []) (serverAfter storedEvents) servedEvents =
      some (serverAfter (storedEvents ++ servedEvents)) := by
  have h := served_run
  rwa [run_append, stored_run] at h

theorem served_response :
    (serverAfter (storedEvents ++ servedEvents)).tasks[1]? =
      some ⟨identityRequest, .done (plainResponse identityRequest disclosedRecord disclosed)⟩ :=
  (rfl)

theorem responses_as_published_again :
    ∃ response, ⟨identityRequest, .done response⟩ ∈
        (serverAfter (storedEvents ++ servedEvents)).tasks ∧
      (response = .scenarioNotFound ∨ response = .resultNotReady ∨
        ∃ record, ∃ p : Publication legibleLibraries,
          Published legibleLibraries (fun _ => []) (serverAfter (storedEvents ++ servedEvents)).store
            identityRequest record p ∧
          response = plainResponse identityRequest record p) :=
  ⟨_, List.mem_of_getElem? served_response,
    responses_as_published legible_injective served_run (List.mem_of_getElem? served_response)⟩

theorem published_results_stay_served :
    (serverAfter (storedEvents ++ servedEvents)).store.results "s" 1 = some disclosedRecord ∧
      ∃ p : Publication legibleLibraries,
        Held legibleLibraries (fun _ => []) (serverAfter storedEvents).store.files "s" 1
          disclosedRecord p ∧
        Held legibleLibraries (fun _ => []) (serverAfter (storedEvents ++ servedEvents)).store.files
          "s" 1 disclosedRecord p :=
  published_results_stay legible_injective stored_run later_run rfl

end Sound

/-! ## How long a payload is cached -/

namespace IdentityPayloadCache

abbrev Op := Lru.Op String (Bytes × String)

def apply (cache : IdentityPayloadCache) : Op → IdentityPayloadCache
  | .get checksum => (cache.get checksum).2
  | .put checksum entry => cache.put checksum entry.1 entry.2

def size (entry : Bytes × String) : Nat := entry.1.length

/-- The counter is the sum, and the checksums are distinct. -/
structure Counted (cache : IdentityPayloadCache) : Prop where
  fits : Lru.Fits size cache.maxTotalBytes cache.entries
  total : cache.totalBytes = Lru.weight size cache.entries

theorem popOldest_eq (maxTotalBytes : Nat) (entries : List (String × (Bytes × String))) :
    popOldest maxTotalBytes (Lru.weight size entries) entries =
      (↑(Lru.weight size (Lru.evict size maxTotalBytes entries)),
        Lru.evict size maxTotalBytes entries) := by
  induction entries with
  | nil => rfl
  | cons first entries ih =>
    rw [popOldest, Lru.evict]
    by_cases hheavy : maxTotalBytes < Lru.weight size (first :: entries)
    · have hrest : ((Lru.weight size (first :: entries) : Nat) : Int) - first.2.1.length =
          Lru.weight size entries := by
        rw [Lru.weight_cons, size]
        omega
      rw [if_pos (by exact_mod_cast hheavy), if_pos hheavy, hrest, ih]
    · rw [if_neg (by exact_mod_cast hheavy), if_neg hheavy]

theorem apply_eq {cache : IdentityPayloadCache} (h : cache.Counted) (op : Op) :
    (cache.apply op).entries = Lru.step size cache.maxTotalBytes cache.entries op ∧
      (cache.apply op).totalBytes = Lru.weight size (cache.apply op).entries ∧
      (cache.apply op).maxTotalBytes = cache.maxTotalBytes := by
  cases op with
  | get checksum =>
    simp only [apply, get, Lru.step, Lru.get]
    cases hfound : Lru.lookup checksum cache.entries with
    | none => exact ⟨rfl, h.total, rfl⟩
    | some entry =>
      refine ⟨rfl, ?_, rfl⟩
      rw [Lru.weight_touch size h.fits.distinct (Lru.lookup_some hfound)]
      exact h.total
  | put checksum entry =>
    simp only [apply, put, Lru.step, Lru.put]
    by_cases hlarge : cache.maxTotalBytes < size entry
    · rw [if_pos (show cache.maxTotalBytes < entry.1.length from hlarge), if_pos hlarge]
      exact ⟨rfl, h.total, rfl⟩
    · have hreplaced : Lru.weight size (Lru.touch checksum entry cache.entries) +
          ((Lru.lookup checksum cache.entries).map size).getD 0 =
            Lru.weight size cache.entries + size entry :=
        Lru.weight_replaced h.fits.distinct
      -- the counter is adjusted to the sum of what the new entry leaves
      have htotal : (cache.totalBytes - (match Lru.lookup checksum cache.entries with
          | none => 0
          | some old => (old.1.length : Int)) + entry.1.length : Int) =
            Lru.weight size (Lru.touch checksum entry cache.entries) := by
        rw [h.total]
        cases hfound : Lru.lookup checksum cache.entries with
        | none =>
          simp only [hfound, Option.map_none, Option.getD_none, size] at hreplaced ⊢
          omega
        | some old =>
          simp only [hfound, Option.map_some, Option.getD_some, size] at hreplaced ⊢
          omega
      rw [if_neg (show ¬ cache.maxTotalBytes < entry.1.length from hlarge), if_neg hlarge]
      dsimp only
      rw [htotal, popOldest_eq]
      exact ⟨rfl, rfl, rfl⟩

theorem Counted.apply {cache : IdentityPayloadCache} (h : cache.Counted) (op : Op) :
    (cache.apply op).Counted := by
  obtain ⟨hentries, htotal, hmax⟩ := apply_eq h op
  refine ⟨?_, htotal⟩
  rw [hentries, hmax]
  exact h.fits.step op

theorem foldl_apply {cache : IdentityPayloadCache} (h : cache.Counted) (ops : List Op) :
    (ops.foldl apply cache).Counted ∧ (ops.foldl apply cache).entries =
      ops.foldl (Lru.step size cache.maxTotalBytes) cache.entries ∧
      (ops.foldl apply cache).maxTotalBytes = cache.maxTotalBytes := by
  induction ops generalizing cache with
  | nil => exact ⟨h, rfl, rfl⟩
  | cons op ops ih =>
    obtain ⟨hentries, -, hmax⟩ := apply_eq h op
    obtain ⟨hcounted, hfold, hlast⟩ := ih (h.apply op)
    refine ⟨hcounted, ?_, hlast.trans hmax⟩
    rw [List.foldl_cons, List.foldl_cons, hfold, hentries, hmax]

/-- A payload that is put stays while it fits with the payloads that are asked for after it, and
the counter never leaves the sum of what is held. -/
theorem cached_payload_kept (maxTotalBytes : Nat) {content : String → Bytes × String}
    {before later : List Op} {checksum : String} {entry : Bytes × String}
    (hown : Lru.Own content (before ++ .put checksum entry :: later))
    (hfits : Lru.weight size (Lru.entriesOf content
      (checksum :: later.map Lru.Op.key).dedup) ≤ maxTotalBytes) :
    let cache := (before ++ .put checksum entry :: later).foldl apply ⟨[], 0, maxTotalBytes⟩
    (cache.get checksum).1 = some (content checksum) ∧
      cache.totalBytes = Lru.weight size cache.entries ∧ cache.totalBytes ≤ maxTotalBytes := by
  have hempty : Counted ⟨[], 0, maxTotalBytes⟩ :=
    ⟨⟨List.nodup_nil, Nat.zero_le _⟩, rfl⟩
  obtain ⟨hcounted, hentries, hmax⟩ :=
    foldl_apply hempty (before ++ .put checksum entry :: later)
  dsimp only
  refine ⟨?_, hcounted.total, ?_⟩
  · have hkept := Lru.kept_while_fits hown hfits
    rw [get, hentries, hkept]
  · have hweight := hcounted.fits.weight
    rw [hmax] at hweight
    rw [hcounted.total]
    exact_mod_cast hweight

def twoBytes : Bytes × String := ([1, 2], "x")

theorem twoBytes_own :
    Lru.Own (fun _ => twoBytes)
      ([] ++ .put "a" twoBytes :: [.get "b", .put "b" twoBytes] : List Op) := by
  intro key value hmem
  simp only [List.nil_append, List.mem_cons, Lru.Op.put.injEq, reduceCtorEq, List.not_mem_nil,
    or_false, false_or] at hmem
  rcases hmem with ⟨-, rfl⟩ | ⟨-, rfl⟩
  · rfl
  · rfl

/-- Two payloads of two bytes fit in four. -/
theorem cached_payload_kept_pair :
    let cache := ([] ++ .put "a" twoBytes :: [.get "b", .put "b" twoBytes] : List Op).foldl apply
      ⟨[], 0, 4⟩
    (cache.get "a").1 = some twoBytes ∧
      cache.totalBytes = Lru.weight size cache.entries ∧ cache.totalBytes ≤ (4 : Nat) :=
  cached_payload_kept 4 twoBytes_own (by decide)

end IdentityPayloadCache

end Solweig.Serve
