import Laswell.Projection.Added

/-!
# Laswell.Projection.Indexed

Indexes and keys, which are built on the table, on its parts, or on both.

* `Within`: statements on the table and on its parts, with the alterations of the table.
* `createIndex_agrees`, `addKey_agrees`: when `project` says of a build all that it does.
-/

namespace Laswell
namespace Projection

variable {s : Server} {watched : Rel → Prop} {env : Env} {obs : Observations} {r : Rel}

/-! ## Statements on a table and its parts -/

structure Within (r : Rel) (parts : List Rel) (as : List Alteration) (stmts : List Statement) :
    Prop where
  here : ∀ stmt ∈ stmts, stmt = .other ∨ (∃ a ∈ as, stmt = .alter r a) ∨
    ∃ p ∈ parts, ∃ a, stmt = .alter p a
  alterations : r ∉ parts → alterationsOn r stmts = as

namespace Within

variable {parts : List Rel} {as bs : List Alteration} {xs ys : List Statement}

theorem others (h : ∀ stmt ∈ xs, stmt = .other) : Within r parts [] xs :=
  ⟨fun stmt hstmt => .inl (h stmt hstmt), fun _ => alterationsOn_others h⟩

theorem elsewhere (h : ∀ stmt ∈ xs, stmt = .other ∨ ∃ p ∈ parts, ∃ a, stmt = .alter p a) :
    Within r parts [] xs := by
  refine ⟨fun stmt hstmt => (h stmt hstmt).imp_right .inr, fun hr => ?_⟩
  rw [alterationsOn, List.filterMap_eq_nil_iff]
  intro stmt hstmt
  rcases h stmt hstmt with rfl | ⟨p, hp, a, rfl⟩
  · rfl
  · have hne : p ≠ r := fun e => hr (e ▸ hp)
    simp [hne]

theorem alters (h : ∀ stmt ∈ xs, ∃ a, stmt = .alter r a) :
    Within r parts (alterationsOn r xs) xs := by
  refine ⟨fun stmt hstmt => ?_, fun _ => rfl⟩
  obtain ⟨a, rfl⟩ := h stmt hstmt
  refine .inr (.inl ⟨a, ?_, rfl⟩)
  exact List.mem_filterMap.mpr ⟨_, hstmt, by simp⟩

theorem mono {parts' : List Rel} (h : Within r parts as xs) (hsub : ∀ p ∈ parts, p ∈ parts') :
    Within r parts' as xs := by
  refine ⟨fun stmt hstmt => ?_, fun hr => h.alterations fun hmem => hr (hsub r hmem)⟩
  refine (h.here stmt hstmt).imp_right (.imp_right ?_)
  rintro ⟨p, hp, a, rfl⟩
  exact ⟨p, hsub p hp, a, rfl⟩

theorem one (a : Alteration) : Within r parts [a] [.alter r a] := by
  have halters : Within r parts (alterationsOn r [.alter r a]) [.alter r a] := .alters (by simp)
  simpa using halters

theorem append (ha : Within r parts as xs) (hb : Within r parts bs ys) :
    Within r parts (as ++ bs) (xs ++ ys) := by
  constructor
  · intro stmt hstmt
    rcases List.mem_append.mp hstmt with hstmt | hstmt
    · refine (ha.here stmt hstmt).imp_right (.imp_left ?_)
      rintro ⟨a, hmem, rfl⟩
      exact ⟨a, List.mem_append.mpr (.inl hmem), rfl⟩
    · refine (hb.here stmt hstmt).imp_right (.imp_left ?_)
      rintro ⟨a, hmem, rfl⟩
      exact ⟨a, List.mem_append.mpr (.inr hmem), rfl⟩
  · intro hr
    rw [alterationsOn_append, ha.alterations hr, hb.alterations hr]

end Within

theorem statementsOf_append (xs ys : List Step) :
    statementsOf (xs ++ ys) = statementsOf xs ++ statementsOf ys := List.flatMap_append

/-- Builds on the table and on parts of it that are not watched. -/
theorem within_agrees {in_ : Intent} {c c' : Catalog} {parts : List Rel} {as : List Alteration}
    {steps : List Step} (t' : TableObs) (hagree : Agrees s watched obs c) (hr : watched in_.rel)
    (hp : (obs.table in_.rel).present = true) (happly : AllApply steps)
    (hwithin : Within in_.rel parts as (statementsOf steps))
    (hparts : ∀ p ∈ parts, Unwatched watched c p)
    (hreach : ∀ a ∈ as, a.reaches (c.inParts in_.rel) = true → Alone watched c in_.rel)
    (hchange : projectChange in_.rel (obs.table in_.rel) obs in_.change = obs.assign in_.rel t')
    (hexec : s.execAll (statementsOf steps) c = some c') (hp' : t'.present = true)
    (htable : ∀ k k', c.tables in_.rel = some k → TableAgrees s (obs.table in_.rel) k →
      s.alterAll as k = some k' → TableAgrees s t' k') :
    Agrees s watched (projectFirst in_ steps obs) c' := by
  have hself : in_.rel ∉ parts := fun hmem => (hparts in_.rel hmem).1 hr
  refine altered_agrees t' hagree hr hp happly hchange (fun stmt hstmt => ?_) hexec hp' ?_
  · rcases hwithin.here stmt hstmt with rfl | ⟨a, ha, rfl⟩ | ⟨p, hmem, a, rfl⟩
    · trivial
    · exact ⟨.inl rfl, hreach a ha⟩
    · exact confined_unwatched (hparts p hmem) a
  · rw [hwithin.alterations hself]
    exact htable

/-! ## Create index -/

theorem buildOnPart_within {d : CreateIndex} {parts : List IndexPart} :
    (∀ st ∈ parts.filterMap (buildOnPart d), st.applies = true) ∧
      Within r (parts.map (·.relation)) [] (statementsOf (parts.filterMap (buildOnPart d))) := by
  have hstep : ∀ p ∈ parts, ∀ st, buildOnPart d p = some st → st.applies = true ∧
      ∀ stmt ∈ st.statements, ∃ a, stmt = .alter p.relation a := by
    intro p _ st hst
    unfold buildOnPart at hst
    split at hst
    · cases hst
    · cases hst
      simp [Step.applying, Step.applies]
    · cases hst
      simp [Step.applying, Step.applies]
  constructor
  · intro st hst
    obtain ⟨p, hp, hbuild⟩ := List.mem_filterMap.mp hst
    exact (hstep p hp st hbuild).1
  · refine .elsewhere fun stmt hstmt => .inr ?_
    obtain ⟨st, hst, hmem⟩ := List.mem_flatMap.mp hstmt
    obtain ⟨p, hp, hbuild⟩ := List.mem_filterMap.mp hst
    exact ⟨p.relation, List.mem_map_of_mem hp, (hstep p hp st hbuild).2 stmt hmem⟩

/-- The index on the table alone, to which those on the parts are attached. -/
theorem onlyHere_within {parts : List Rel} (a : Alteration) :
    Within r parts [a] (statementsOf [.applying [.alter r a, .other]]) := by
  have hone : Within r parts [a] [.alter r a] := .one a
  have hother : Within r parts [] [.other] := .others (by simp)
  simpa [statementsOf, Step.applying] using hone.append hother

theorem planIndexByParts_within {d : CreateIndex} {parts : List IndexPart} {parentExists : Bool} :
    planIndexByParts r d parts parentExists = [.satisfied] ∨
      (AllApply (planIndexByParts r d parts parentExists) ∧
        Within r (parts.map (·.relation)) (if parentExists then [] else [.createIndex d true])
          (statementsOf (planIndexByParts r d parts parentExists))) := by
  obtain ⟨happly, hwithin⟩ := @buildOnPart_within r d parts
  cases parentExists with
  | true =>
    simp only [planIndexByParts, if_true]
    split
    · exact .inl rfl
    next hne => exact .inr ⟨⟨by simpa using hne, happly⟩, hwithin⟩
  | false =>
    refine .inr ⟨(allApply_singleton _).append_left happly, ?_⟩
    exact (onlyHere_within (.createIndex d true)).append hwithin

theorem planPartitionedIndex_within {t : TableObs} {d : CreateIndex} {steps : List Step}
    (h : planPartitionedIndex r t d = some steps) :
    AllApply steps ∧ Within r t.partitions [.createIndex d true] (statementsOf steps) := by
  simp only [planPartitionedIndex] at h
  iterate 4
    split at h
    · cases h
  cases h
  constructor
  · refine ⟨by simp, fun st hst => ?_⟩
    simp only [List.mem_append, List.mem_map, List.mem_singleton] at hst
    rcases hst with ((⟨p, -, rfl⟩ | rfl) | ⟨p, -, rfl⟩) | rfl <;> rfl
  · simp only [statementsOf_append]
    have hbuilds : Within r t.partitions [] (statementsOf (t.partitions.map fun p =>
        Step.applying [.alter p (.createIndex (d.onPart p) false)])) := by
      refine .elsewhere fun stmt hstmt => .inr ?_
      obtain ⟨st, hst, hmem⟩ := List.mem_flatMap.mp hstmt
      obtain ⟨p, hp, rfl⟩ := List.mem_map.mp hst
      exact ⟨p, hp, _, by simpa [Step.applying] using hmem⟩
    have hattach : Within r t.partitions [] (statementsOf (t.partitions.map fun _ =>
        Step.applying [.other])) := .others (by simp [statementsOf, Step.applying])
    have hlast : Within r t.partitions [] (statementsOf [.applying [.other]]) :=
      .others (by simp [statementsOf, Step.applying])
    simpa using ((hbuilds.append (onlyHere_within (.createIndex d true))).append hattach).append hlast

/-- The relations a build may touch beside the table. -/
def indexedParts (env : Env) (obs : Observations) (r : Rel) (d : CreateIndex) : List Rel :=
  (obs.table r).partitions ++ (env.indexTraits obs r (.createIndex d)).parts.map (·.relation)

theorem planNewIndex_within {d : CreateIndex} {rebuild : Bool} {steps : List Step}
    (hequiv : firstEquivalent (obs.table r) d = none ∨ d.onEquivalent ≠ .rename)
    (h : planNewIndex env obs r d rebuild = some steps) :
    (steps = [.satisfied] ∧ ∃ found, firstEquivalent (obs.table r) d = some found) ∨
      (AllApply steps ∧ ∃ as, (as = [.createIndex d true] ∨ as = [.createIndex d false] ∨
          as = [.dropIndex d.name, .createIndex d false]) ∧
        Within r (indexedParts env obs r d) as (statementsOf steps)) := by
  simp only [planNewIndex] at h
  split at h
  next other ex hfound =>
    split at h
    · cases h
    · split at h
      · cases h
      · exact .inl ⟨(Option.some.inj h).symm, _, hfound⟩
      next hrename =>
        rcases hequiv with hnone | hother
        · rw [hnone] at hfound
          cases hfound
        · exact absurd hrename hother
  · right
    split at h
    · obtain ⟨happly, hwithin⟩ := planPartitionedIndex_within h
      exact ⟨happly, _, .inl rfl, hwithin.mono fun p hp => List.mem_append.mpr (.inl hp)⟩
    · split at h
      · cases h
        rcases @planIndexByParts_within r d (env.indexTraits obs r (.createIndex d)).parts false
          with heq | ⟨happly, hwithin⟩
        · simp [planIndexByParts, Step.applying, Step.satisfied] at heq
        · exact ⟨happly, _, .inl rfl, hwithin.mono fun p hp => List.mem_append.mpr (.inr hp)⟩
      · cases h
        have hbuild : Within r (indexedParts env obs r d) [.createIndex d false]
            [.alter r (.createIndex d false), .other] := by
          simpa [statementsOf, Step.applying] using onlyHere_within (.createIndex d false)
        cases rebuild with
        | false =>
          exact ⟨allApply_singleton _, [.createIndex d false], .inr (.inl rfl),
            by simpa [statementsOf, Step.applying] using hbuild⟩
        | true =>
          refine ⟨allApply_singleton _, [.dropIndex d.name, .createIndex d false],
            .inr (.inr rfl), ?_⟩
          have hdrop : Within r (indexedParts env obs r d) [.dropIndex d.name]
              [.alter r (.dropIndex d.name)] := .one _
          simpa [statementsOf, Step.applying] using hdrop.append hbuild

/-- Where more than nothing is done: a key of columns, parts that are not watched, no index that is
renamed for this one, and, where the index is there and only parts lack theirs, one that reads as the
one asked for. -/
def IndexMirrored (env : Env) (s : Server) (watched : Rel → Prop) (obs : Observations) (c : Catalog)
    (r : Rel) (d : CreateIndex) : Prop :=
  planCreateIndex env obs r d ≠ some [.satisfied] →
    d.hasExpressionKey = false ∧ AloneInParts watched c r ∧
      (∀ p ∈ indexedParts env obs r d, Unwatched watched c p) ∧
      match (obs.table r).indexes[d.name]?.filter (·.isValid) with
      | none => firstEquivalent (obs.table r) d = none ∨ d.onEquivalent ≠ .rename
      | some _ => ∀ k i, c.tables r = some k → k.indexes d.name = some i → Reads s d.projected i

theorem createIndex_agrees {c c' : Catalog} {d : CreateIndex} {steps : List Step}
    (hagree : Agrees s watched obs c) (hr : watched r)
    (hplan : planCreateIndex env obs r d = some steps)
    (hexec : s.execAll (statementsOf steps) c = some c')
    (hmir : IndexMirrored env s watched obs c r d) :
    Agrees s watched (projectFirst ⟨r, .createIndex d⟩ steps obs) c' := by
  by_cases hsteps : steps = [.satisfied]
  · subst hsteps
    exact satisfied_agrees hagree hexec
  obtain ⟨hkeys, halone, hparts, hmatch⟩ := hmir fun h => hsteps (Option.some.inj (hplan ▸ h))
  have hreads := reads_built (s := s) hkeys
  -- a build of its own, where there is no index or an invalid one
  have hnew : ∀ rebuild, planNewIndex env obs r d rebuild = some steps →
      (obs.table r).present = true →
      (firstEquivalent (obs.table r) d = none ∨ d.onEquivalent ≠ .rename) →
      Agrees s watched (projectFirst ⟨r, .createIndex d⟩ steps obs) c' := by
    intro rebuild hplan hp hequiv
    rcases planNewIndex_within hequiv hplan with ⟨rfl, -⟩ | ⟨happly, as, has, hwithin⟩
    · exact absurd rfl hsteps
    refine within_agrees { obs.table r with indexes := (obs.table r).indexes.insert d.name d.projected }
      hagree hr hp happly hwithin hparts (fun a ha hreach => ?_) rfl hexec hp
      fun k k' hk htk hall => ?_
    · refine halone ?_
      rcases has with rfl | rfl | rfl <;>
        simp only [List.mem_cons, List.not_mem_nil, or_false] at ha
      · simp [ha, Alteration.reaches] at hreach
      · simpa [ha, Alteration.reaches] using hreach
      · rcases ha with rfl | rfl <;> simpa [Alteration.reaches] using hreach
    · rcases has with rfl | rfl | rfl
      · simp only [alterAll_cons, alterAll_nil, Server.alter] at hall
        obtain ⟨mid, hmid, rfl⟩ := hall
        exact htk.addIndex hreads hmid
      · simp only [alterAll_cons, alterAll_nil, Server.alter] at hall
        obtain ⟨mid, hmid, rfl⟩ := hall
        exact htk.addIndex hreads hmid
      · simp only [alterAll_cons, alterAll_nil, Server.alter] at hall
        obtain ⟨dropped, hdropped, mid, hmid, rfl⟩ := hall
        rw [(addIndex_eq hmid).2, dropIndex_eq hdropped]
        refine ⟨htk.columns, ?_, htk.constraints⟩
        simpa using htk.indexes.insert d.name hreads
  simp only [planCreateIndex] at hplan
  split at hplan
  · cases hplan
  next hp =>
    have hp : (obs.table r).present = true := by simpa using hp
    cases hindex : (obs.table r).indexes[d.name]? with
    | none =>
      rw [hindex] at hplan hmatch
      exact hnew false hplan hp hmatch
    | some ex =>
      rw [hindex] at hplan hmatch
      cases hvalid : ex.isValid with
      | false =>
        simp only [hvalid, Bool.not_false, if_true, Option.filter_some, Bool.false_eq_true,
          if_false] at hplan hmatch
        exact hnew true hplan hp hmatch
      | true =>
        simp only [hvalid, Bool.not_true, Bool.false_eq_true, if_false, Option.filter_some,
          if_true] at hplan hmatch
        split at hplan
        · cases hplan
          rcases @planIndexByParts_within r d (env.indexTraits obs r (.createIndex d)).parts true
            with heq | ⟨happly, hwithin⟩
          · exact absurd heq hsteps
          refine within_agrees { obs.table r with
            indexes := (obs.table r).indexes.insert d.name d.projected } hagree hr hp happly
            (hwithin.mono fun p hp => List.mem_append.mpr (.inr hp)) hparts
            (fun a ha => by cases ha) rfl hexec hp fun k k' hk htk hall => ?_
          rw [if_pos rfl, alterAll_nil] at hall
          subst hall
          obtain ⟨i, hi, -⟩ := htk.indexes.of_some hindex
          have hinsert := htk.indexes.insert d.name (hmatch k i hk hi)
          rw [← hi, Function.update_eq_self] at hinsert
          exact ⟨htk.columns, hinsert, htk.constraints⟩
        · exact absurd (Option.some.inj hplan).symm hsteps

/-! ## Keys -/

/-- What the build of a key comes to on the table, once its columns are NOT NULL. -/
inductive KeyBuild (obs : Observations) (r : Rel) (k : AddKey) : List Alteration → Prop
  | stated (only : Bool) : KeyBuild obs r k [.addKey k.name k.primary k.columns only]
  | backed {ix} (h : backing (obs.table r) k.columns = some (k.name, ix))
      (hkeys : ix.keyColumns = k.columns) :
    KeyBuild obs r k [.addKeyUsing k.name k.primary k.name]
  | built : KeyBuild obs r k
      [.createIndex { name := k.name, columns := k.columns.map fun c => { name := c }, unique := true }
        false,
      .addKeyUsing k.name k.primary k.name]

theorem KeyBuild.reaches {k : AddKey} {as : List Alteration} (h : KeyBuild obs r k as)
    {inParts : Bool} : ∀ a ∈ as, a.reaches inParts = true → inParts = true := by
  intro a ha hreach
  cases h with
  | stated only =>
    obtain rfl : a = _ := by simpa using ha
    simp only [Alteration.reaches, Bool.and_eq_true] at hreach
    exact hreach.1
  | backed h hkeys =>
    obtain rfl : a = _ := by simpa using ha
    exact hreach
  | built =>
    simp only [List.mem_cons, List.not_mem_nil, or_false] at ha
    rcases ha with rfl | rfl
    · simpa [Alteration.reaches] using hreach
    · exact hreach

theorem keyIndex_keyColumns (columns : List String) (primary withoutOverlaps : Bool) :
    (keyIndex columns primary withoutOverlaps).keyColumns = columns := by
  simp [IndexObs.keyColumns, keyIndex]

/-- Each of the builds leaves the table with the key. -/
theorem KeyBuild.keyed {key : AddKey} {as : List Alteration} {k k' : CatTable}
    (h : KeyBuild obs r key as) (hagree : Covers (Reads s) (obs.table r).indexes k.indexes)
    (hflags : ∀ c ∈ key.columns, key.primary = true → k.columns c = some true)
    (hall : s.alterAll as k = some k') :
    ∃ i, k' = k.keyed key.name key.primary key.columns i ∧
      Reads s (keyIndex key.columns key.primary key.withoutOverlaps) i := by
  cases h with
  | stated only =>
    obtain ⟨mid, hmid, hrest⟩ := alterAll_cons.mp hall
    rw [alterAll_nil] at hrest
    subst hrest
    exact ⟨_, addKey_eq (.inr hflags) hmid, reads_keyIndex ..⟩
  | @backed ix h hkeys =>
    obtain ⟨mid, hmid, hrest⟩ := alterAll_cons.mp hall
    rw [alterAll_nil] at hrest
    subst hrest
    have hthere : (obs.table r).indexes[key.name]? = some ix := by
      have hmem := List.mem_of_find?_eq_some h
      exact Std.TreeMap.mem_toList_iff_getElem?_eq_some.mp hmem
    obtain ⟨i, hi, hreads⟩ := hagree.of_some hthere
    have hcolumns : i.keyColumns = key.columns := hreads.keyColumns.symm.trans hkeys
    obtain ⟨hunique, hpredicate, hkeyed⟩ := addKeyUsing_eq hi hcolumns (.inr hflags) hmid
    refine ⟨_, hkeyed, ?_, hunique.symm, .inl hpredicate.symm⟩
    exact (keyIndex_keyColumns ..).trans hcolumns.symm
  | built =>
    simp only [alterAll_cons, alterAll_nil] at hall
    obtain ⟨indexed, hindexed, mid, hmid, rfl⟩ := hall
    have hcolumns : (s.built
        { name := key.name, columns := key.columns.map fun c => { name := c },
          unique := true }).keyColumns = key.columns := by
      simp [Server.built, CatIndex.keyColumns, Function.comp_def]
    have hbuilt := (addIndex_eq hindexed).2
    have hself : indexed.indexes key.name = some (s.built
        { name := key.name, columns := key.columns.map fun c => { name := c },
          unique := true }) := by
      rw [hbuilt]
      exact Function.update_self ..
    have hsame : indexed.columns = k.columns := by rw [hbuilt]
    obtain ⟨hunique, hpredicate, hkeyed⟩ :=
      addKeyUsing_eq hself hcolumns (.inr (hsame ▸ hflags)) hmid
    rw [hbuilt, CatTable.keyed_index] at hkeyed
    refine ⟨_, hkeyed, ?_, hunique.symm, .inl hpredicate.symm⟩
    exact (keyIndex_keyColumns ..).trans hcolumns.symm

/-! ## The plan of a key -/

def keyParts (obs : Observations) (r : Rel) : List Rel :=
  (obs.table r).partitionParts.map (·.relation)

theorem stated_within {parts : List Rel} (a : Alteration) :
    AllApply [.applying [.alter r a]] ∧
      Within r parts [a] (statementsOf [.applying [.alter r a]]) :=
  ⟨allApply_singleton _, by simpa [statementsOf, Step.applying] using Within.one a⟩

/-- The steps on a partition are on it alone. -/
theorem keyOnPart_elsewhere (k : AddKey) (p : PartObs) :
    ∀ st ∈ (if k.withoutOverlaps then periodOnPart k else uniqueOnPart k) p, st.applies = true ∧
      ∀ stmt ∈ st.statements, stmt = .other ∨ ∃ a, stmt = .alter p.relation a := by
  intro st hst
  split at hst
  · simp only [periodOnPart, List.mem_append] at hst
    rcases hst with hst | hst <;> split at hst <;>
      simp_all [Step.applying, Step.applies]
  · simp only [uniqueOnPart, List.mem_append] at hst
    rcases hst with (hst | hst) | hst
    · split at hst
      · cases hst
      · obtain rfl := List.mem_singleton.mp hst
        refine ⟨rfl, fun stmt hstmt => .inr ?_⟩
        simp only [Step.applying, List.mem_append, List.mem_singleton] at hstmt
        rcases hstmt with hstmt | rfl
        · split at hstmt
          · exact ⟨_, List.mem_singleton.mp hstmt⟩
          · cases hstmt
        · exact ⟨_, rfl⟩
    · split at hst <;> simp_all [Step.applying, Step.applies]
    · split at hst <;> simp_all [Step.applying, Step.applies]

theorem planKeyOnPartitions_within {k : AddKey} {steps : List Step}
    (hnew : (obs.table r).constraints[k.name]? = none)
    (h : planKeyOnPartitions r (obs.table r) k = some steps) :
    AllApply steps ∧ ∃ as, KeyBuild obs r k as ∧
      Within r (keyParts obs r) as (statementsOf steps) := by
  have hnew : (obs.table r).constraints.contains k.name = false := by
    simp [Std.TreeMap.contains_eq_isSome_getElem?, hnew]
  simp only [planKeyOnPartitions, Option.ite_none_left_eq_some] at h
  obtain ⟨-, -, h⟩ := h
  by_cases hparts : (obs.table r).partitionParts.isEmpty = true
  · rw [if_pos hparts] at h
    cases h
    obtain ⟨happly, hwithin⟩ := stated_within (.addKey k.name k.primary k.columns false)
    exact ⟨happly, _, .stated false, hwithin⟩
  · rw [if_neg hparts] at h
    obtain rfl := Option.some.inj h
    simp only [hnew, Bool.false_eq_true, if_false, statementsOf_append]
    obtain ⟨happly, hwithin⟩ := @stated_within r (keyParts obs r)
      (.addKey k.name k.primary k.columns true)
    have hsteps := keyOnPart_elsewhere k
    have hchildren : Within r (keyParts obs r) [] (statementsOf ((obs.table r).partitionParts.flatMap
        (if k.withoutOverlaps then periodOnPart k else uniqueOnPart k))) := by
      refine .elsewhere fun stmt hstmt => ?_
      obtain ⟨st, hst, hmem⟩ := List.mem_flatMap.mp hstmt
      obtain ⟨p, hp, hstep⟩ := List.mem_flatMap.mp hst
      refine ((hsteps p st hstep).2 stmt hmem).imp_right fun ha => ?_
      exact ⟨p.relation, List.mem_map_of_mem hp, ha⟩
    have hlast : Within r (keyParts obs r) [] (statementsOf [.applying [.other]]) :=
      .others (by simp [statementsOf, Step.applying])
    refine ⟨?_, _, .stated true, by simpa using (hwithin.append hchildren).append hlast⟩
    refine ⟨by simp, fun st hst => ?_⟩
    simp only [List.mem_append, List.mem_singleton, List.mem_flatMap] at hst
    rcases hst with (rfl | ⟨p, -, hst⟩) | rfl
    · rfl
    · exact (hsteps p st hst).1
    · rfl

theorem planPeriodKey_within {k : AddKey} {steps : List Step}
    (hnew : (obs.table r).constraints[k.name]? = none)
    (h : planPeriodKey r (obs.table r) k = some steps) :
    AllApply steps ∧ ∃ as, KeyBuild obs r k as ∧
      Within r (keyParts obs r) as (statementsOf steps) := by
  simp only [planPeriodKey, Option.ite_none_left_eq_some] at h
  obtain ⟨-, -, h⟩ := h
  split at h
  · exact planKeyOnPartitions_within hnew h
  · cases h
    obtain ⟨happly, hwithin⟩ := stated_within (.addKey k.name k.primary k.columns false)
    exact ⟨happly, _, .stated false, hwithin⟩

/-- An index that is taken for the key is one of its name, over its columns and no others. -/
def BackedByOwn (obs : Observations) (r : Rel) (k : AddKey) : Prop :=
  ∀ index ix, backing (obs.table r) k.columns = some (index, ix) →
    index = k.name ∧ ix.keyColumns = k.columns

theorem planOrdinaryKey_within {k : AddKey} (hown : BackedByOwn obs r k) :
    AllApply (planOrdinaryKey env obs r k) ∧ ∃ as, KeyBuild obs r k as ∧
      Within r (keyParts obs r) as (statementsOf (planOrdinaryKey env obs r k)) := by
  unfold planOrdinaryKey
  dsimp only
  split
  next index ix hbacking =>
    obtain ⟨rfl, hkeys⟩ := hown index ix hbacking
    obtain ⟨happly, hwithin⟩ := stated_within (.addKeyUsing k.name k.primary k.name)
    exact ⟨happly, _, .backed hbacking hkeys, hwithin⟩
  · split
    · obtain ⟨happly, hwithin⟩ := stated_within (.addKey k.name k.primary k.columns false)
      exact ⟨happly, _, .stated false, hwithin⟩
    · refine ⟨⟨by simp, by simp [Step.applying, Step.applies]⟩, _, .built, ?_⟩
      exact (stated_within _).2.append (stated_within _).2

/-- Where more than nothing is done: the recipes for its columns leave nothing beside the flags, the
parts are not watched, the constraint is not one to be taken up, and no index is used up for it. -/
def KeyMirrored (env : Env) (s : Server) (watched : Rel → Prop) (obs : Observations) (c : Catalog)
    (r : Rel) (k : AddKey) : Prop :=
  planUniqueLike env obs r k ≠ some [.satisfied] →
    (nullableKeyColumns (obs.table r) k ≠ [] → Alone watched c r) ∧
      (∀ column ∈ nullableKeyColumns (obs.table r) k,
        FlagMirrored env s obs (obs.table r) r column false) ∧
      AloneInParts watched c r ∧ (∀ p ∈ keyParts obs r, Unwatched watched c p) ∧
      (obs.table r).constraints[k.name]? = none ∧
      (k.withoutOverlaps = false → (obs.table r).kind ≠ .partitionedTable → BackedByOwn obs r k)

theorem addKey_agrees {c c' : Catalog} {k : AddKey} {steps : List Step}
    (hagree : Agrees s watched obs c) (hr : watched r)
    (hplan : planUniqueLike env obs r k = some steps)
    (hexec : s.execAll (statementsOf steps) c = some c')
    (hmir : KeyMirrored env s watched obs c r k) :
    Agrees s watched (projectFirst ⟨r, .addKey k⟩ steps obs) c' := by
  by_cases hsteps : steps = [.satisfied]
  · subst hsteps
    exact satisfied_agrees hagree hexec
  obtain ⟨halone, hflags, hinParts, hparts, hnew, hown⟩ :=
    hmir fun h => hsteps (Option.some.inj (hplan ▸ h))
  simp only [planUniqueLike, hnew, Option.isSome_none, Bool.false_and, Bool.false_eq_true, if_false,
    Option.ite_none_left_eq_some, Option.bind_eq_bind, Option.bind_eq_some_iff] at hplan
  obtain ⟨hp, hthere, -, flags, hplans, hplan⟩ := hplan
  have hp : (obs.table r).present = true := by simpa using hp
  have hbuild : ∃ build, steps = flags.flatten ++ build ∧ AllApply build ∧
      ∃ as, KeyBuild obs r k as ∧ Within r (keyParts obs r) as (statementsOf build) := by
    split at hplan
    · obtain ⟨build, hbuild, h⟩ := Option.bind_eq_some_iff.mp hplan
      exact ⟨build, (Option.some.inj h).symm, planPeriodKey_within hnew hbuild⟩
    next hperiod =>
      split at hplan
      · obtain ⟨build, hbuild, h⟩ := Option.bind_eq_some_iff.mp hplan
        exact ⟨build, (Option.some.inj h).symm, planKeyOnPartitions_within hnew hbuild⟩
      next hkind =>
        exact ⟨_, (Option.some.inj hplan).symm,
          planOrdinaryKey_within (hown (by simpa using hperiod) hkind)⟩
  obtain ⟨build, rfl, happly, as, hkey, hwithin⟩ := hbuild
  have hcolumn : ∀ column ∈ k.columns, ∃ col, (obs.table r).columns[column]? = some col := by
    intro column hmem
    have hsome : ¬ (k.columns.any fun c => ((obs.table r).columns[c]?).isNone) = true := hthere
    simp only [List.any_eq_true, not_exists, not_and, Bool.not_eq_true] at hsome
    exact Option.isSome_iff_exists.mp (by simpa using hsome column hmem)
  have hnull : ∀ column ∈ nullableKeyColumns (obs.table r) k,
      (k.primary = true ∧ column ∈ k.columns) ∧ NullableIn (obs.table r) column := by
    intro column hmem
    unfold nullableKeyColumns at hmem
    split at hmem
    next hprimary =>
      obtain ⟨hin, hflag⟩ := List.mem_filter.mp hmem
      obtain ⟨col, hcol⟩ := hcolumn column hin
      exact ⟨⟨hprimary, hin⟩, col, hcol, by simpa [hcol] using hflag⟩
    · cases hmem
  obtain ⟨happlies, -, hstatements⟩ := flags_apply (fun column hmem => (hnull column hmem).2) hplans
  have hreach : ∀ a ∈ alterationsOn r (statementsOf flags.flatten) ++ as,
      a.reaches (c.inParts r) = true → Alone watched c r := by
    intro a ha hreach
    rcases List.mem_append.mp ha with ha | ha
    · refine halone fun hnone => ?_
      rw [hnone] at hplans
      obtain rfl : flags = [] := by simpa using hplans.symm
      simp [statementsOf] at ha
    · exact hinParts (hkey.reaches a ha hreach)
  refine within_agrees ((obs.table r).keyed k) hagree hr hp (happly.append happlies)
    (statementsOf_append _ _ ▸ (Within.alters hstatements).append hwithin) hparts hreach
    (projectChange_addKey ..) hexec hp fun t t' ht htk hall => ?_
  obtain ⟨flagged, hflagged, hkeyed⟩ := alterAll_append.mp hall
  have hset := flags_notNulls (fun column hmem => (hnull column hmem).2) hplans htk.constraints
    hflags hflagged
  subst hset
  have hkeys : ∀ column ∈ k.columns, k.primary = true →
      (t.notNulls (nullableKeyColumns (obs.table r) k)).columns column = some true := by
    intro column hmem hprimary
    obtain ⟨col, hcol⟩ := hcolumn column hmem
    obtain ⟨flag, hflag, heq⟩ := htk.columns.of_some hcol
    cases hnn : col.notNull with
    | false =>
      have hin : column ∈ nullableKeyColumns (obs.table r) k := by
        simp [nullableKeyColumns, hprimary, hmem, hcol, hnn]
      simp [CatTable.notNulls, hin]
    | true =>
      have hnot : t.columns column = some true := by rw [hflag, ← heq, hnn]
      simp [CatTable.notNulls, hnot]
  have hindexes : Covers (Reads s) (obs.table r).indexes
      (t.notNulls (nullableKeyColumns (obs.table r) k)).indexes := htk.indexes
  obtain ⟨i, rfl, hreads⟩ := hkey.keyed hindexes hkeys hkeyed
  rw [CatTable.keyed_notNulls t fun column hmem => (hnull column hmem).1]
  exact htk.keyed k hreads

end Projection
end Laswell
