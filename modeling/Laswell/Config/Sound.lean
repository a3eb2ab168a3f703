import Laswell.Config.Registry

/-!
# Laswell.Config.Sound

What a configuration that was accepted promises.

* `connectionKey_built`: what one key of a connection's section does.
* `Configures`: what a connection has to do with its section, and with `[executor]` before it.
* `readSection_along`: what one section does to the registry.
* `fromIni_sound`: every file that is accepted.
-/

namespace Laswell
namespace Config

open Base Canonical Trust Jobs

/-! ## Executor keys -/

/-- The keys `apply_executor_key` knows. -/
def executorKeys : List String :=
  ["batch_rows", "batch_bytes", "commit_interval_ms", "progress_interval_ms", "batch_cap_rows",
    "max_concurrent_operations", "dml_single_txn_rows", "lock_timeout_ms",
    "dry_run_statement_timeout_ms", "observer_tick_ms", "max_concurrent_jobs", "host_vcpus",
    "maintenance_work_mem_mb", "throttle_waiters", "pause_waiters", "resume_waiters",
    "contention_dwell_ticks", "max_waiter_wait_ms", "max_pause_s", "app_pool_size",
    "app_statement_timeout_ms", "safety_percent"]

theorem map_some_ne_none {least : Int} {kind value key w : String}
    {set : Int → ExecutorSettings} :
    (boundedInt least kind value key w).map (some ∘ set) ≠ .ok none := by
  cases boundedInt least kind value key w <;> simp [Except.map]

theorem applyExecutorKey_none {e : ExecutorSettings} {key value w : String} :
    applyExecutorKey e key value w = .ok none ↔ key ∉ executorKeys := by
  simp only [applyExecutorKey, positiveInt, nonNegativeInt]
  split
  case h_23 => simp_all [executorKeys]
  all_goals exact iff_of_false map_some_ne_none (by simp [executorKeys])

/-- The settings after these keys, those that are not the executor's left aside. -/
def overlay (w : String) (e : ExecutorSettings) (kvs : List (Text × Text)) : ExecutorSettings :=
  kvs.foldl (fun e kv =>
    match applyExecutorKey e (shown kv.1) (shown kv.2) w with
    | .ok (some e') => e'
    | _ => e) e

def isExecutor (s : Section) : Bool := s.name = "executor".toList

/-- The settings of the `[executor]` section among these, or the defaults. -/
def executorIn (w : String) (sections : List Section) : ExecutorSettings :=
  match sections.find? isExecutor with
  | none => {}
  | some s => overlay w {} s.keys

/-! ## Loops that stop at an error -/

/-- What one step keeps, a loop over the whole list keeps. -/
theorem foldlM_ok {α β ε : Type} {f : β → α → Except ε β} {all : List α}
    {P : List α → β → Prop}
    (hstep : ∀ done x rest b b', all = done ++ x :: rest → P done b → f b x = .ok b' →
      P (done ++ [x]) b') :
    ∀ {xs done : List α} {b b' : β}, all = done ++ xs → P done b → xs.foldlM f b = .ok b' →
      P all b' := by
  intro xs
  induction xs with
  | nil =>
    intro done b b' hall hb h
    cases h
    simpa [hall] using hb
  | cons x xs ih =>
    intro done b b' hall hb h
    rw [List.foldlM_cons] at h
    cases hone : f b x with
    | error e =>
      rw [hone] at h
      cases h
    | ok b1 =>
      rw [hone] at h
      exact @ih (done ++ [x]) b1 b' (by simp [hall]) (hstep done x xs b b1 hall hb hone) h

/-! ## Connections -/

/-- A key of a connection's section that reaches libpq. -/
def isParam (key : Text) : Bool :=
  key ≠ "statement_timeout_ms".toList && shown key ∉ executorKeys && '.' ∉ key

theorem isParam_iff {key : Text} : isParam key = true ↔
    key ≠ "statement_timeout_ms".toList ∧ shown key ∉ executorKeys ∧ '.' ∉ key := by
  simp only [isParam, Bool.and_eq_true, decide_eq_true_eq, and_assoc]

def paramsOf (s : Section) : List (Text × Text) := s.keys.filter fun kv => isParam kv.1

/-- A section's parameters with the name the binary goes by, which a later parameter of that name
replaces in the server's eyes. -/
def allParams (binary : Binary) (s : Section) : List (Text × Text) :=
  paramsOf s ++ [("application_name".toList, binary.appName)]

/-- A connection's section as far as it was read, from these settings. -/
structure Built (w : String) (name : Text) (e : ExecutorSettings) (kvs : List (Text × Text))
    (b : Building) : Prop where
  name : b.conn.name = name
  executor : b.conn.executor = overlay w e kvs
  configured : Configured b.conn.executor
  timeout : 0 ≤ b.conn.statementTimeoutMs
  parts : b.parts = (kvs.filter fun kv => isParam kv.1).map parameter
  noOptions : ∀ kv ∈ kvs, isParam kv.1 = true → kv.1 ≠ "options".toList

theorem echo_name (c : ConnConfig) (kv : Text × Text) :
    (c.echo kv).name = c.name ∧ (c.echo kv).executor = c.executor ∧
      (c.echo kv).statementTimeoutMs = c.statementTimeoutMs := by
  unfold ConnConfig.echo
  split
  · exact ⟨rfl, rfl, rfl⟩
  · split
    · exact ⟨rfl, rfl, rfl⟩
    · split
      · exact ⟨rfl, rfl, rfl⟩
      · split
        · exact ⟨rfl, rfl, rfl⟩
        · split <;> exact ⟨rfl, rfl, rfl⟩

theorem statementTimeout_not_executor : "statement_timeout_ms" ∉ executorKeys := by decide

theorem shown_eq_iff {s : Text} {t : String} : shown s = t ↔ s = t.toList := by
  constructor
  · rintro rfl
    exact (String.toList_ofList (l := s)).symm
  · rintro rfl
    exact String.ofList_toList

/-- What one key does: a number of its own, a setting, a module's setting, or a parameter. -/
theorem connectionKey_built {binary : Binary} {w : String} {name : Text} {e : ExecutorSettings}
    {done : List (Text × Text)} {kv : Text × Text} {b b' : Building}
    (hb : Built w name e done b) (h : connectionKey binary w b kv = .ok b') :
    Built w name e (done ++ [kv]) b' := by
  have hoverlay : overlay w e (done ++ [kv]) =
      match applyExecutorKey b.conn.executor (shown kv.1) (shown kv.2) w with
      | .ok (some e') => e'
      | _ => b.conn.executor := by
    rw [hb.executor]
    simp [overlay, List.foldl_append]
  have hquiet (hnone : applyExecutorKey b.conn.executor (shown kv.1) (shown kv.2) w = .ok none) :
      b.conn.executor = overlay w e (done ++ [kv]) := by
    rw [hoverlay, hnone]
  have hnoParam (hp : isParam kv.1 = false) :
      b.parts = ((done ++ [kv]).filter fun kv => isParam kv.1).map parameter := by
    rw [hb.parts, List.filter_append, List.filter_singleton, hp]
    simp
  have hoptions (ho : isParam kv.1 = true → kv.1 ≠ "options".toList) :
      ∀ x ∈ done ++ [kv], isParam x.1 = true → x.1 ≠ "options".toList := by
    intro x hx
    rcases List.mem_append.mp hx with hx | hx
    · exact hb.noOptions x hx
    · obtain rfl := List.mem_singleton.mp hx
      exact ho
  unfold connectionKey at h
  dsimp only at h
  split at h
  · next htimeout =>
    have hnone : applyExecutorKey b.conn.executor (shown kv.1) (shown kv.2) w = .ok none := by
      rw [applyExecutorKey_none, shown_eq_iff.mpr htimeout]
      exact statementTimeout_not_executor
    have hp : isParam kv.1 = false :=
      Bool.eq_false_iff.mpr fun hp => (isParam_iff.mp hp).1 htimeout
    cases hn : nonNegativeInt (shown kv.2) (shown kv.1) w with
    | error what =>
      rw [hn] at h
      cases h
    | ok n =>
      rw [hn] at h
      cases h
      exact ⟨hb.name, hquiet hnone, hb.configured, boundedInt_ge hn, hnoParam hp,
        hoptions fun h => absurd h (by simp [hp])⟩
  · next htimeout =>
    split at h
    · cases h
    · next e' hset =>
      cases h
      have hp : isParam kv.1 = false := by
        have hin : shown kv.1 ∈ executorKeys := by
          by_contra hnot
          rw [applyExecutorKey_none.mpr hnot] at hset
          cases hset
        exact Bool.eq_false_iff.mpr fun hp => (isParam_iff.mp hp).2.1 hin
      exact ⟨hb.name, by rw [hoverlay, hset], hb.configured.key hset, hb.timeout, hnoParam hp,
        hoptions fun h => absurd h (by simp [hp])⟩
    · next hset =>
      split at h
      · next hdot =>
        have hp : isParam kv.1 = false :=
          Bool.eq_false_iff.mpr fun hp => (isParam_iff.mp hp).2.2 hdot
        split at h
        · cases h
        · cases h
          exact ⟨hb.name, hquiet hset, hb.configured, hb.timeout, hnoParam hp,
            hoptions fun h => absurd h (by simp [hp])⟩
      · next hdot =>
        split at h
        · cases h
        · next hopt =>
          cases h
          obtain ⟨hname, hexecutor, hms⟩ := echo_name b.conn kv
          have hp : isParam kv.1 = true :=
            isParam_iff.mpr ⟨htimeout, applyExecutorKey_none.mp hset, hdot⟩
          refine ⟨hname.trans hb.name, hexecutor.trans (hquiet hset), ?_, ?_, ?_,
            hoptions fun _ => hopt⟩
          · rw [hexecutor]
            exact hb.configured
          · rw [hms]
            exact hb.timeout
          · rw [hb.parts, List.filter_append, List.filter_singleton, hp]
            simp

/-- What a connection has to do with its section, where these are the settings `[executor]` has given
before it. -/
structure Configures (binary : Binary) (w : String) (e : ExecutorSettings) (s : Section)
    (c : ConnConfig) : Prop where
  name : c.name = s.name
  executor : c.executor = overlay w e s.keys
  accepted : Accepted c.executor
  timeout : 0 ≤ c.statementTimeoutMs
  somewhere : paramsOf s ≠ []
  noOptions : ∀ p ∈ paramsOf s, p.1 ≠ "options".toList
  conninfo : c.conninfo = joined ((allParams binary s).map parameter)

theorem parseConnection_configures {binary : Binary} {w : String} {e : ExecutorSettings}
    {s : Section} {c : ConnConfig} (he : Configured e)
    (h : parseConnection binary e s w = .ok c) : Configures binary w e s c := by
  unfold parseConnection at h
  cases hkeys : s.keys.foldlM (connectionKey binary w) { conn := { name := s.name, executor := e } }
    with
  | error what =>
    rw [hkeys] at h
    cases h
  | ok b =>
    have hb : Built w s.name e s.keys b :=
      foldlM_ok (P := Built w s.name e) (fun done x rest b b' _ hb h => connectionKey_built hb h)
        (List.nil_append _).symm ⟨rfl, rfl, he, (by decide : (0 : Int) ≤ 120000), rfl, by simp⟩ hkeys
    rw [hkeys] at h
    cases hvalid : validateExecutor b.conn.executor w with
    | error what =>
      simp only [bind, Except.bind, hvalid] at h
      cases h
    | ok _ =>
      simp only [bind, Except.bind, hvalid] at h
      split at h
      · cases h
      · next hparts =>
        cases h
        have hparams : b.parts = (paramsOf s).map parameter := hb.parts
        refine ⟨hb.name, hb.executor, ⟨hb.configured, w, hvalid⟩, hb.timeout, ?_, ?_, ?_⟩
        · intro hnil
          rw [hparams, hnil] at hparts
          exact hparts rfl
        · intro p hp
          obtain ⟨hmem, hparam⟩ := List.mem_filter.mp hp
          exact hb.noOptions p hmem hparam
        · rw [hparams, allParams, List.map_append]
          rfl

theorem noEquals_application : '=' ∉ "application_name".toList := by decide

theorem allParams_noEquals {binary : Binary} {s : Section} (hs : s.Valid) :
    ∀ p ∈ allParams binary s, '=' ∉ p.1 := by
  intro p hp
  rcases List.mem_append.mp hp with hp | hp
  · exact (hs.keys p (List.mem_filter.mp hp).1).noEquals
  · obtain rfl := List.mem_singleton.mp hp
    exact noEquals_application

/-- What libpq reads from a connection's string. -/
theorem Configures.reads {binary : Binary} {w : String} {e : ExecutorSettings} {s : Section}
    {c : ConnConfig} (h : Configures binary w e s c) (hs : s.Valid) (l : Libpq) :
    l.reads c.conninfo = some (allParams binary s) ↔
      ∀ p ∈ allParams binary s, Legible p ∧ l.keyword p.1 = true := by
  rw [h.conninfo]
  exact reads_joined_iff l (allParams_noEquals hs)

/-- And from the string for another database of the same server. -/
theorem Configures.reads_elsewhere {binary : Binary} {w : String} {e : ExecutorSettings}
    {s : Section} {c : ConnConfig} (h : Configures binary w e s c) (hs : s.Valid) (l : Libpq)
    (dbname : Text) :
    l.reads (withDbname c.conninfo dbname) =
        some (allParams binary s ++ [("dbname".toList, dbname)]) ↔
      ∀ p ∈ allParams binary s ++ [("dbname".toList, dbname)],
        Legible p ∧ l.keyword p.1 = true := by
  rw [h.conninfo]
  exact reads_withDbname_iff l (by simp [allParams]) (allParams_noEquals hs) dbname

/-! ## The registry -/

/-- The settings in force for a section: those of an `[executor]` section in front of it. -/
def executorBefore (w : String) (sections : List Section) (s : Section) : ExecutorSettings :=
  executorIn w (sections.takeWhile (· ≠ s))

def isConn (s : Section) : Bool := isConnection s.name

/-- The registry after these sections of the file. -/
structure Along (binary : Binary) (w : String) (sections done : List Section) (r : Registry) :
    Prop where
  conns : List.Forall₂
    (fun s c => s ∈ sections ∧ Configures binary w (executorBefore w sections s) s c)
    (done.filter isConn) r.conns
  default : r.defaultName = ((done.filter isConn).head?.map Section.name).getD []
  executor : r.executor = executorIn w done
  configured : Configured r.executor
  valid : ∃ w, validateExecutor r.executor w = .ok ()
  keys : ∀ id key, r.trust.keys id = some key → key.label ≠ [] ∧
    ∃ s ∈ done, isKeySection s.name = true ∧ id = bytesOf (trim (s.name.drop 4))

theorem parseKey_label {keyId : Text} {kvs : List (Text × Text)} {w : String} {key : LocalKey}
    (h : parseKey keyId kvs w = .ok key) : key.label ≠ [] := by
  unfold parseKey at h
  split at h
  · cases h
  · cases hkeys : kvs.foldlM (keySectionKey keyId w) {} with
    | error what =>
      rw [hkeys] at h
      cases h
    | ok k =>
      rw [hkeys] at h
      simp only [bind, Except.bind] at h
      split at h
      · cases h
      · split at h
        · cases h
        · next hlabel =>
          cases h
          simpa [bytesOf] using hlabel

/-- The `[executor]` section: its keys are all known, and set one after the other. -/
theorem executorKeys_overlay {w : String} {e e' : ExecutorSettings} {kvs : List (Text × Text)}
    (he : Configured e) (h : kvs.foldlM (executorKey w) e = .ok e') :
    e' = overlay w e kvs ∧ Configured e' := by
  refine foldlM_ok (P := fun done e' => e' = overlay w e done ∧ Configured e') ?_
    (List.nil_append _).symm ⟨rfl, he⟩ h
  rintro done kv rest b b' - ⟨hb, hconf⟩ hkey
  unfold executorKey at hkey
  cases hset : applyExecutorKey b (shown kv.1) (shown kv.2) w with
  | error what =>
    rw [hset] at hkey
    cases hkey
  | ok o =>
    rw [hset] at hkey
    cases o with
    | none => cases hkey
    | some e1 =>
      cases hkey
      refine ⟨?_, hconf.key hset⟩
      rw [hb] at hset
      have hone : overlay w (overlay w e done) [kv] = b' := by
        change (match applyExecutorKey (overlay w e done) (shown kv.1) (shown kv.2) w with
          | .ok (some e') => e'
          | _ => overlay w e done) = b'
        rw [hset]
      rw [← hone, overlay, overlay, overlay, List.foldl_append]

theorem executorIn_append {w : String} {done : List Section} {s : Section} :
    executorIn w (done ++ [s]) =
      if done.any isExecutor then executorIn w done else executorIn w [s] := by
  unfold executorIn
  rw [List.find?_append]
  cases hf : done.find? isExecutor with
  | none =>
    have hany : done.any isExecutor = false := by simpa using hf
    rw [hany]
    rfl
  | some t =>
    have hany : done.any isExecutor = true :=
      List.any_eq_true.mpr ⟨t, List.mem_of_find?_eq_some hf, List.find?_some hf⟩
    rw [hany]
    rfl

/-- A section that is not `[executor]` leaves the settings as they are. -/
theorem executorIn_other {w : String} {done : List Section} {s : Section}
    (h : isExecutor s = false) : executorIn w (done ++ [s]) = executorIn w done := by
  rw [executorIn_append]
  split
  · rfl
  · next hany =>
    have hnone : done.find? isExecutor = none := by simpa using hany
    simp [executorIn, hnone, h]

theorem isConn_iff {s : Section} : isConn s = true ↔ s.name ≠ "trust".toList ∧
    s.name ≠ "executor".toList ∧ isKeySection s.name = false := by
  simp only [isConn, isConnection, Bool.and_eq_true, decide_eq_true_eq, and_assoc,
    Bool.not_eq_true']

/-- A section that is no connection. -/
theorem filter_other {done : List Section} {s : Section} (h : isConn s = false) :
    (done ++ [s]).filter isConn = done.filter isConn := by
  rw [List.filter_append, List.filter_singleton, h]
  simp

theorem Along.trust {binary : Binary} {w : String} {sections done : List Section}
    {r : Registry} {s : Section} (h : Along binary w sections done r)
    (hconn : isConn s = false) (hname : isExecutor s = false) {trust : TrustPolicy}
    (hkeys : ∀ id key, trust.keys id = some key → key.label ≠ [] ∧
      ∃ t ∈ done ++ [s], isKeySection t.name = true ∧ id = bytesOf (trim (t.name.drop 4))) :
    Along binary w sections (done ++ [s]) { r with trust } where
  conns := by
    rw [filter_other hconn]
    exact h.conns
  default := by
    rw [filter_other hconn]
    exact h.default
  executor := h.executor.trans (executorIn_other hname).symm
  configured := h.configured
  valid := h.valid
  keys := hkeys

theorem executor_not_trust : "trust".toList ≠ "executor".toList := by decide

/-- One section more. -/
theorem readSection_along {binary : Binary} {w : String} {sections done rest : List Section}
    {s : Section} {r r' : Registry} (hsections : sections = done ++ s :: rest)
    (hv : Valid sections) (hr : Along binary w sections done r)
    (h : readSection binary w r s = .ok r') : Along binary w sections (done ++ [s]) r' := by
  have hnew : ∀ t ∈ done, t.name ≠ s.name := by
    intro t ht he
    have hnames := hv.names
    rw [hsections, List.map_append, List.nodup_append] at hnames
    exact hnames.2.2 t.name (List.mem_map_of_mem ht) s.name (by simp) he
  have hold : ∀ id key, r.trust.keys id = some key → key.label ≠ [] ∧
      ∃ t ∈ done ++ [s], isKeySection t.name = true ∧ id = bytesOf (trim (t.name.drop 4)) := by
    intro id key hkey
    obtain ⟨hlabel, t, ht, hin⟩ := hr.keys id key hkey
    exact ⟨hlabel, t, List.mem_append_left _ ht, hin⟩
  unfold readSection at h
  split at h
  · next htrust =>
    have hconn : isConn s = false :=
      Bool.eq_false_iff.mpr fun hc => (isConn_iff.mp hc).1 htrust
    cases haccept : parseTrust r.trust.accept s.keys w with
    | error what =>
      rw [haccept] at h
      cases h
    | ok accept =>
      rw [haccept] at h
      cases h
      have hname : isExecutor s = false := decide_eq_false (htrust ▸ executor_not_trust)
      exact hr.trust hconn hname hold
  · next htrust =>
    split at h
    · next hexecutor =>
      have hconn : isConn s = false :=
        Bool.eq_false_iff.mpr fun hc => (isConn_iff.mp hc).2.1 hexecutor
      have hfirst : done.any isExecutor = false := by
        simp only [List.any_eq_false, isExecutor, decide_eq_true_eq]
        exact fun t ht he => hnew t ht (he.trans hexecutor.symm)
      cases hkeys : s.keys.foldlM (executorKey w) r.executor with
      | error what =>
        rw [hkeys] at h
        cases h
      | ok e =>
        rw [hkeys] at h
        cases hvalid : validateExecutor e w with
        | error what =>
          simp only [bind, Except.bind, hvalid] at h
          cases h
        | ok _ =>
          simp only [bind, Except.bind, hvalid] at h
          cases h
          obtain ⟨he, hconf⟩ := executorKeys_overlay hr.configured hkeys
          have hdefaults : r.executor = {} := by
            have hnone : done.find? isExecutor = none := by simpa using hfirst
            rw [hr.executor, executorIn, hnone]
          refine ⟨by rw [filter_other hconn]; exact hr.conns,
            by rw [filter_other hconn]; exact hr.default, ?_, hconf, ⟨w, hvalid⟩, hold⟩
          have hself : isExecutor s = true := decide_eq_true hexecutor
          rw [executorIn_append, hfirst, he, hdefaults]
          simp [executorIn, hself]
    · next hexecutor =>
      split at h
      · next hkeySection =>
        have hconn : isConn s = false := by
          refine Bool.eq_false_iff.mpr fun hc => ?_
          exact Bool.noConfusion (hkeySection.symm.trans (isConn_iff.mp hc).2.2)
        dsimp only at h
        cases hkey : parseKey (trim (s.name.drop 4)) s.keys w with
        | error what =>
          rw [hkey] at h
          cases h
        | ok key =>
          rw [hkey] at h
          cases h
          refine hr.trust hconn (decide_eq_false hexecutor) fun id k hk => ?_
          dsimp only at hk
          split at hk
          · next hid =>
            cases hk
            exact ⟨parseKey_label hkey, s, by simp, hkeySection, hid⟩
          · exact hold id k hk
      · next hkeySection =>
        have hconn : isConn s = true :=
          isConn_iff.mpr ⟨htrust, hexecutor, Bool.eq_false_iff.mpr hkeySection⟩
        cases hparse : parseConnection binary r.executor s w with
        | error what =>
          rw [hparse] at h
          cases h
        | ok c =>
          rw [hparse] at h
          cases h
          have hbefore : executorBefore w sections s = r.executor := by
            have htake : sections.takeWhile (· ≠ s) = done := by
              rw [hsections, List.takeWhile_append_of_pos, List.takeWhile_cons_of_neg (by simp),
                List.append_nil]
              intro t ht
              have : t ≠ s := fun he => hnew t ht (by rw [he])
              simpa using this
            rw [executorBefore, htake, hr.executor]
          have hfilter : (done ++ [s]).filter isConn = done.filter isConn ++ [s] := by
            rw [List.filter_append, List.filter_singleton, hconn]
            rfl
          refine ⟨?_, ?_, hr.executor.trans (executorIn_other (decide_eq_false hexecutor)).symm,
            hr.configured,
            hr.valid, hold⟩
          · rw [hfilter]
            refine List.rel_append hr.conns (.cons ?_ .nil)
            rw [hbefore]
            exact ⟨by simp [hsections], parseConnection_configures hr.configured hparse⟩
          · dsimp only
            rw [hfilter, hr.default]
            cases hdone : done.filter isConn with
            | nil => rfl
            | cons t ts =>
              have ht : t ∈ done := (List.mem_filter.mp (hdone ▸ List.mem_cons_self)).1
              have hne : t.name ≠ [] := (hv.each t (by simp [hsections, ht])).name_ne
              simp [hne]

/-- What a configuration that was accepted promises: one connection for each section that is none of
the reserved forms, in order; the first one is the default; its settings are the executor's, checked,
and its string is made of the section's parameters; and no key is accepted that is not there. -/
structure Sound (binary : Binary) (w : String) (sections : List Section) (r : Registry) : Prop
    extends Along binary w sections sections r where
  trusted : ∀ id, r.trust.accepts id = true → ∃ key, r.trust.keys id = some key

theorem checkAccepted_ok {w : String} {trust : TrustPolicy} {u : Unit}
    (h : checkAccepted w trust = .ok u) :
    ∀ id, trust.accepts id = true → ∃ key, trust.keys id = some key := by
  have hall : ∀ ids : List Bytes, (ids.forM fun id =>
      if (trust.keys id).isNone then
        (.error (w ++ ": [trust] accepts " ++ textOf id ++ " but there is no [key " ++ textOf id ++
          "] section") : Except String Unit)
      else .ok ()) = .ok u → ∀ id ∈ ids, ∃ key, trust.keys id = some key := by
    intro ids
    induction ids with
    | nil => simp
    | cons id ids ih =>
      intro h
      rw [List.forM_eq_forM, List.forM_cons] at h
      split at h
      · cases h
      · next hsome =>
        refine List.forall_mem_cons.mpr ⟨?_, ih h⟩
        cases hk : trust.keys id with
        | none => simp [hk] at hsome
        | some key => exact ⟨key, rfl⟩
  intro id hid
  rw [TrustPolicy.accepts, List.any_eq_true] at hid
  obtain ⟨id', hmem, he⟩ := hid
  obtain rfl : id' = id := by simpa using he
  exact hall trust.accept h id' hmem

theorem fromSections_sound {binary : Binary} {w : String} {sections : List Section} {r : Registry}
    (hv : Valid sections) (h : fromSections binary w sections = .ok r) :
    Sound binary w sections r := by
  unfold fromSections at h
  cases hread : sections.foldlM (readSection binary w) {} with
  | error what =>
    rw [hread] at h
    cases h
  | ok r0 =>
    rw [hread] at h
    cases hcheck : checkAccepted w r0.trust with
    | error what =>
      simp only [bind, Except.bind, hcheck] at h
      cases h
    | ok u =>
      simp only [bind, Except.bind, hcheck] at h
      cases h
      refine ⟨foldlM_ok (P := Along binary w sections)
        (fun done s rest r r' hall hr h => readSection_along hall hv hr h)
        (List.nil_append _).symm ?_ hread, checkAccepted_ok hcheck⟩
      exact ⟨.nil, rfl, rfl, .defaults, accepted_defaults.valid, fun id key hk => by cases hk⟩

/-- Every file that is accepted is its owner's alone, is read, and means what it promises; and the
connection string of each of its connections, and the one made of it for another database, is read
by libpq as the section's parameters, the name of the program behind them, exactly when all of them
are legible and of names libpq knows. -/
theorem fromIni_sound {binary : Binary} {path : String} {mode : Option Nat}
    {content : Option Text} {r : Registry} (h : fromIni binary path mode content = .ok r) :
    ∃ m text sections, mode = some m ∧ m &&& 0o77 = 0 ∧ content = some text ∧
      readIni path text = .ok sections ∧ Valid sections ∧ Sound binary path sections r ∧
      List.Forall₂ (fun s c => c.name = s.name ∧ ∀ l : Libpq,
        (l.reads c.conninfo = some (allParams binary s) ↔
          ∀ p ∈ allParams binary s, Legible p ∧ l.keyword p.1 = true) ∧
        ∀ dbname, l.reads (withDbname c.conninfo dbname) =
            some (allParams binary s ++ [("dbname".toList, dbname)]) ↔
          ∀ p ∈ allParams binary s ++ [("dbname".toList, dbname)],
            Legible p ∧ l.keyword p.1 = true)
        (sections.filter isConn) r.conns := by
  unfold fromIni at h
  split at h
  · cases h
  · next m =>
    split at h
    · cases h
    · next hmode =>
      split at h
      · cases h
      · next text =>
        cases hread : readIni path text with
        | error what =>
          rw [hread] at h
          cases h
        | ok sections =>
          rw [hread] at h
          have hv := (readIni_valid hread).1
          have hsound := fromSections_sound hv h
          refine ⟨m, text, sections, rfl, not_not.mp hmode, rfl, hread, hv, hsound, ?_⟩
          refine List.Forall₂.imp (fun s c hc => ?_) hsound.conns
          exact ⟨hc.2.name, fun l => ⟨hc.2.reads (hv.each s hc.1) l,
            hc.2.reads_elsewhere (hv.each s hc.1) l⟩⟩

/-! ## A file -/

def sampleBinary : Binary where
  appName := "pg-laswell/1".toList

def sampleFile : Text := "[executor]\nbatch_rows = 50\n[db]\nhost = a b\nresume_waiters = 2".toList

/-- The names of the sample and of the strings made of it. -/
def sampleLibpq : Libpq where
  keyword k := k = "host".toList ∨ k = "dbname".toList ∨ k = "application_name".toList
  uri _ := none
  keyword_plain k hk := by
    rcases of_decide_eq_true hk with rfl | rfl | rfl <;> decide
  uri_keyword _ _ h := nomatch h

theorem sampleFile_accepted :
    (fromIni sampleBinary "laswell.conf" (some 0o600) (some sampleFile)).isOk = true := by
  decide +kernel

theorem fromIni_sound_sample :
    ∃ r, fromIni sampleBinary "laswell.conf" (some 0o600) (some sampleFile) = .ok r ∧
      ∃ m text sections, some 0o600 = some m ∧ m &&& 0o77 = 0 ∧ some sampleFile = some text ∧
        readIni "laswell.conf" text = .ok sections ∧ Valid sections ∧
        Sound sampleBinary "laswell.conf" sections r ∧
        List.Forall₂ (fun s c => c.name = s.name ∧
          (sampleLibpq.reads c.conninfo = some (allParams sampleBinary s) ↔
            ∀ p ∈ allParams sampleBinary s, Legible p ∧ sampleLibpq.keyword p.1 = true) ∧
          ∀ dbname, sampleLibpq.reads (withDbname c.conninfo dbname) =
              some (allParams sampleBinary s ++ [("dbname".toList, dbname)]) ↔
            ∀ p ∈ allParams sampleBinary s ++ [("dbname".toList, dbname)],
              Legible p ∧ sampleLibpq.keyword p.1 = true)
          (sections.filter isConn) r.conns := by
  cases h : fromIni sampleBinary "laswell.conf" (some 0o600) (some sampleFile) with
  | error what =>
    have haccepted := sampleFile_accepted
    rw [h] at haccepted
    cases haccepted
  | ok r =>
    obtain ⟨m, text, sections, hm, hmode, htext, hread, hv, hsound, hconns⟩ := fromIni_sound h
    refine ⟨r, rfl, m, text, sections, hm, hmode, htext, hread, hv, hsound, ?_⟩
    exact hconns.imp fun s c hc => ⟨hc.1, hc.2 sampleLibpq⟩

end Config
end Laswell
