import Laswell.Planner.DependentViews

/-!
# Laswell.Planner.Grants

The privileges of a view that is made again. The catalog is read as `aclitem` texts, and
`grants_from_aclitem` makes GRANT statements of each.

* `aclitemOut`: how PostgreSQL prints an entry, its grantee in quotes where the name needs them.
* `grantsFromAclitem_text`: the statements, as the text of grants.
* `Acl.execute`: what grants add up to.
* `restores_iff`: when the statements of an entry give back the entry.
-/

namespace Laswell
namespace Planner

/-! ## Entries and how they are printed -/

inductive Privilege where
  | insert | select | update | delete | truncate | references | trigger | maintain
  deriving DecidableEq

namespace Privilege

/-- In the order in which they are printed. -/
def all : List Privilege :=
  [insert, select, update, delete, truncate, references, trigger, maintain]

def letter : Privilege → Char
  | insert => 'a'
  | select => 'r'
  | update => 'w'
  | delete => 'd'
  | truncate => 'D'
  | references => 'x'
  | trigger => 't'
  | maintain => 'm'

def sql : Privilege → String
  | insert => "INSERT"
  | select => "SELECT"
  | update => "UPDATE"
  | delete => "DELETE"
  | truncate => "TRUNCATE"
  | references => "REFERENCES"
  | trigger => "TRIGGER"
  | maintain => "MAINTAIN"

/-- Those a column can have. -/
def ofColumn : List Privilege := [insert, select, update, references]

theorem mem_all (p : Privilege) : p ∈ all := by cases p <;> decide

theorem all_nodup : all.Nodup := by decide

end Privilege

inductive Grantee where
  | everyone
  | role (name : String)
  deriving DecidableEq

/-- What the grantees have: by grantee, column and privilege, whether with the grant option. The
column "" is the whole relation. -/
abbrev Acl := Grantee → String → Privilege → Option Bool

/-- An entry of a relation or of a column. Those that PostgreSQL keeps have a privilege, and PUBLIC
has no grant option. -/
structure AclEntry where
  grantee : Grantee
  column : String := ""
  held : Privilege → Option Bool
  grantor : String
  named : grantee ≠ .role ""
  holds : ∃ p, held p ≠ none
  public_plain : grantee = .everyone → ∀ p, held p ≠ some true
  column_level : column ≠ "" → ∀ p, held p ≠ none → p ∈ Privilege.ofColumn

/-- The privileges of the entry, and no others. -/
def AclEntry.acl (e : AclEntry) : Acl := fun who column p =>
  if who = e.grantee ∧ column = e.column then e.held p else none

/-- A character that a printed name may have without quotes. -/
def safeChar (c : Char) : Bool := c.isAlphanum || c == '_'

/-- `putid` of PostgreSQL -/
def putid (name : String) : List Char :=
  if name.toList.all safeChar then name.toList else (quoted '"' name).toList

def Grantee.printed : Grantee → List Char
  | .everyone => []
  | .role name => putid name

/-- A privilege as it stands in the entry. -/
def AclEntry.printed (e : AclEntry) (p : Privilege) : List Char :=
  match e.held p with
  | none => []
  | some option => p.letter :: if option then ['*'] else []

def AclEntry.privileges (e : AclEntry) : List Char := Privilege.all.flatMap e.printed

/-- `aclitemout` of PostgreSQL -/
def aclitemOut (e : AclEntry) : String :=
  String.ofList (e.grantee.printed ++ '=' :: (e.privileges ++ '/' :: putid e.grantor))

/-! ## The statements -/

structure Grant where
  privilege : Privilege
  column : String
  grantee : Grantee
  withGrantOption : Bool

def Grantee.sql : Grantee → String
  | .everyone => "PUBLIC"
  | .role name => quoteIdentifier name

def Grant.text (on : String) (g : Grant) : String :=
  "GRANT " ++ g.privilege.sql ++
    (if g.column = "" then "" else " (" ++ quoteIdentifier g.column ++ ")") ++ " ON " ++ on ++
    " TO " ++ g.grantee.sql ++ (if g.withGrantOption then " WITH GRANT OPTION;" else ";")

/-- The letters of `kPriv`. -/
def privilegeOf : Char → Option Privilege
  | 'r' => some .select
  | 'w' => some .update
  | 'a' => some .insert
  | 'd' => some .delete
  | 'D' => some .truncate
  | 'x' => some .references
  | 't' => some .trigger
  | _ => none

/-- The grants that `grantsOf` prints. -/
def grantsRead (column : String) (who : Grantee) : List Char → List Grant
  | [] => []
  | c :: cs =>
    match privilegeOf c with
    | none => grantsRead column who cs
    | some p =>
      { privilege := p, column := column, grantee := who,
        withGrantOption := decide (cs.head? = some '*') } :: grantsRead column who cs

/-- The grants of one aclitem. -/
def aclitemGrants (item column : String) : List Grant :=
  if '=' ∈ item.toList then
    let grantee := String.ofList (item.toList.takeWhile (· ≠ '='))
    grantsRead column (if grantee = "" then .everyone else .role grantee)
      ((item.toList.dropWhile (· ≠ '=')).tail.takeWhile (· ≠ '/'))
  else []

/-- What one statement adds. -/
def Acl.grant (acl : Acl) (g : Grant) : Acl := fun who column p =>
  if who = g.grantee ∧ column = g.column ∧ p = g.privilege then
    some (g.withGrantOption || (acl who column p).getD false)
  else acl who column p

def Acl.execute (acl : Acl) (gs : List Grant) : Acl := gs.foldl Acl.grant acl

def Acl.empty : Acl := fun _ _ _ => none

/-- The statements of the printed entry give its grantee the entry's privileges, with the entry's
grant options, and nobody anything else. -/
def AclEntry.Restores (e : AclEntry) : Prop :=
  Acl.empty.execute (aclitemGrants (aclitemOut e) e.column) = e.acl

/-- PUBLIC, or a name that is printed without quotes. -/
def Grantee.Plain : Grantee → Prop
  | .everyone => True
  | .role name => name.toList.all safeChar = true

/-! ## The text of the statements -/

theorem privilege_eq (c : Char) : privilege c = (privilegeOf c).map Privilege.sql := by
  unfold privilege privilegeOf
  split <;> simp [Privilege.sql]

theorem grantsOf_text (on column : String) (who : Grantee) (privs : List Char) :
    grantsOf on column who.sql privs = (grantsRead column who privs).map (Grant.text on) := by
  induction privs with
  | nil => rfl
  | cons c cs ih =>
    rw [grantsOf, grantsRead, privilege_eq]
    cases privilegeOf c with
    | none => exact ih
    | some p =>
      simp only [Option.map_some, List.map_cons, ih, Grant.text, decide_eq_true_eq]

/-- The statements are the texts of the grants. -/
theorem grantsFromAclitem_text (item on column : String) :
    grantsFromAclitem item on column = (aclitemGrants item column).map (Grant.text on) := by
  unfold grantsFromAclitem aclitemGrants
  split
  · have hwho (name : String) : (if name = "" then "PUBLIC" else quoteIdentifier name) =
        (if name = "" then Grantee.everyone else .role name).sql := by
      split <;> rfl
    dsimp only
    rw [hwho]
    exact grantsOf_text _ _ _ _
  · rfl

/-! ## What grants add up to -/

section Execute

variable {acl : Acl} {who : Grantee} {column : String} {p : Privilege}

theorem execute_cons (g : Grant) (gs : List Grant) :
    acl.execute (g :: gs) = (acl.grant g).execute gs := rfl

/-- Nobody gains what no statement grants. -/
theorem execute_frame {gs : List Grant}
    (h : ∀ g ∈ gs, ¬ (who = g.grantee ∧ column = g.column ∧ p = g.privilege)) :
    acl.execute gs who column p = acl who column p := by
  induction gs generalizing acl with
  | nil => rfl
  | cons g gs ih =>
    rw [execute_cons, ih fun g' hg' => h g' (List.mem_cons_of_mem g hg'), Acl.grant,
      if_neg (h g List.mem_cons_self)]

/-- The grants of different privileges to one grantee. -/
theorem execute_privileges (held : Privilege → Option Bool) (role : Grantee) (col : String) :
    ∀ (ps : List Privilege) (acl : Acl), ps.Nodup →
      (∀ p ∈ ps, acl role col p = none) →
      acl.execute (ps.filterMap fun p => (held p).map fun o => ⟨p, col, role, o⟩) =
        fun who column p =>
          if who = role ∧ column = col ∧ p ∈ ps ∧ held p ≠ none then held p else acl who column p := by
  intro ps
  induction ps with
  | nil =>
    intro acl _ _
    funext who column p
    simp [Acl.execute]
  | cons q ps ih =>
    intro acl hnd hfree
    rw [List.nodup_cons] at hnd
    cases hq : held q with
    | none =>
      rw [List.filterMap_cons_none (by simp [hq]),
        ih acl hnd.2 fun p hp => hfree p (List.mem_cons_of_mem q hp)]
      funext who column p
      by_cases hpq : p = q
      · simp [hpq, hq]
      · simp [hpq]
    | some o =>
      have hfree' : ∀ p ∈ ps, acl.grant ⟨q, col, role, o⟩ role col p = none := by
        intro p hp
        have hpq : p ≠ q := fun h => hnd.1 (h ▸ hp)
        simp [Acl.grant, hpq, hfree p (List.mem_cons_of_mem q hp)]
      simp only [List.filterMap_cons, hq, Option.map_some]
      rw [execute_cons, ih _ hnd.2 hfree']
      funext who column p
      by_cases hpq : p = q
      · have hacl := hfree q List.mem_cons_self
        by_cases hwho : who = role ∧ column = col
        · simp [Acl.grant, hpq, hq, hnd.1, hwho, hacl]
        · simp only [Acl.grant, hpq, hnd.1]
          rw [if_neg fun h => hwho ⟨h.1, h.2.1⟩, if_neg fun h => hwho ⟨h.1, h.2.1⟩,
            if_neg fun h => hwho ⟨h.1, h.2.1⟩]
      · simp [Acl.grant, hpq]

end Execute

/-! ## The entries of a view together -/

/-- What is had from two sides. -/
def combine : Option Bool → Option Bool → Option Bool
  | none, b => b
  | some a, none => some a
  | some a, some b => some (a || b)

theorem combine_assoc (a b c : Option Bool) : combine (combine a b) c = combine a (combine b c) := by
  cases a <;> cases b <;> cases c <;> simp [combine, Bool.or_assoc]

def Acl.plus (a b : Acl) : Acl := fun who column p => combine (a who column p) (b who column p)

theorem grant_plus (acl : Acl) (g : Grant) : acl.grant g = acl.plus (Acl.empty.grant g) := by
  funext who column p
  unfold Acl.grant Acl.plus Acl.empty
  by_cases h : who = g.grantee ∧ column = g.column ∧ p = g.privilege
  · rw [if_pos h]
    cases acl who column p with
    | none => simp [combine, h]
    | some o =>
      simp only [if_pos h, combine]
      simp [Bool.or_comm]
  · rw [if_neg h]
    simp only [if_neg h]
    cases acl who column p <;> rfl

theorem execute_plus (acl : Acl) (gs : List Grant) :
    acl.execute gs = acl.plus (Acl.empty.execute gs) := by
  induction gs generalizing acl with
  | nil =>
    funext who column p
    cases h : acl who column p <;> simp [Acl.plus, Acl.execute, Acl.empty, combine, h]
  | cons g gs ih =>
    rw [execute_cons, execute_cons, ih, ih (Acl.empty.grant g), grant_plus acl g]
    funext who column p
    exact combine_assoc _ _ _

/-- The privileges of all entries of a view. -/
def Acl.total (es : List AclEntry) : Acl := es.foldr (fun e acl => e.acl.plus acl) Acl.empty

/-- Where every entry is given back, the statements of `emit_view_recreates` give back all. -/
theorem rebuilt_acl {es : List AclEntry} (h : ∀ e ∈ es, e.Restores) :
    Acl.empty.execute (es.flatMap fun e => aclitemGrants (aclitemOut e) e.column) =
      Acl.total es := by
  induction es with
  | nil => rfl
  | cons e es ih =>
    have hrest := ih fun e' he' => h e' (List.mem_cons_of_mem e he')
    have he : Acl.empty.execute (aclitemGrants (aclitemOut e) e.column) = e.acl :=
      h e List.mem_cons_self
    rw [List.flatMap_cons, Acl.execute, List.foldl_append]
    change ((Acl.empty.execute (aclitemGrants (aclitemOut e) e.column)).execute _) = _
    rw [he, execute_plus, hrest]
    rfl

/-! ## Reading a printed entry -/

section Read

variable {e : AclEntry}

theorem privilegeOf_letter (p : Privilege) :
    privilegeOf p.letter = if p = .maintain then none else some p := by
  cases p <;> rfl

theorem star_unread : privilegeOf '*' = none := by decide

theorem privileges_head (ps : List Privilege) : (ps.flatMap e.printed).head? ≠ some '*' := by
  induction ps with
  | nil => simp
  | cons p ps ih =>
    rw [List.flatMap_cons, AclEntry.printed]
    split
    · exact ih
    · cases p <;> simp [Privilege.letter]

/-- The loop reads each printed privilege with its star; MAINTAIN it passes over. -/
theorem grantsRead_privileges (column : String) (who : Grantee) (ps : List Privilege) :
    grantsRead column who (ps.flatMap e.printed) =
      ps.filterMap fun p =>
        (if p = .maintain then none else e.held p).map fun o => ⟨p, column, who, o⟩ := by
  induction ps with
  | nil => rfl
  | cons p ps ih =>
    have hhead := privileges_head (e := e) ps
    rw [List.flatMap_cons, List.filterMap_cons, ← ih]
    cases hp : e.held p with
    | none => simp [AclEntry.printed, hp]
    | some o =>
      cases o with
      | true =>
        simp only [AclEntry.printed, hp, if_true, List.cons_append, List.nil_append]
        rw [grantsRead, privilegeOf_letter, grantsRead, star_unread]
        by_cases hm : p = .maintain <;> simp [hm]
      | false =>
        simp only [AclEntry.printed, hp, Bool.false_eq_true, if_false, List.cons_append,
          List.nil_append]
        rw [grantsRead, privilegeOf_letter]
        by_cases hm : p = .maintain <;> simp [hm, hhead]

theorem takeWhile_until {sep : Char} {l r : List Char} (h : sep ∉ l) :
    (l ++ sep :: r).takeWhile (· ≠ sep) = l ∧ (l ++ sep :: r).dropWhile (· ≠ sep) = sep :: r := by
  induction l with
  | nil => simp
  | cons c l ih =>
    rw [List.mem_cons, not_or] at h
    have hc : c ≠ sep := fun hc => h.1 hc.symm
    simpa [hc] using ih h.2

theorem printed_ne_slash (p : Privilege) : '/' ∉ e.printed p := by
  unfold AclEntry.printed
  cases e.held p with
  | none => simp
  | some o => cases o <;> cases p <;> decide

theorem privileges_ne_slash : '/' ∉ e.privileges := by
  unfold AclEntry.privileges
  rw [List.mem_flatMap]
  rintro ⟨p, -, hp⟩
  exact printed_ne_slash p hp

/-- An entry whose printed grantee has no "=" is read with the grantee as it is printed. -/
theorem aclitemGrants_printed (h : '=' ∉ e.grantee.printed) (column : String) :
    aclitemGrants (aclitemOut e) column =
      grantsRead column (if String.ofList e.grantee.printed = "" then .everyone
        else .role (String.ofList e.grantee.printed)) e.privileges := by
  have hcut := takeWhile_until (r := e.privileges ++ '/' :: putid e.grantor) h
  have hpriv := takeWhile_until (r := putid e.grantor) (privileges_ne_slash (e := e))
  unfold aclitemGrants aclitemOut
  rw [String.toList_ofList, if_pos (by simp), hcut.1, hcut.2, List.tail_cons, hpriv.1]

theorem plain_ne_eq (h : e.grantee.Plain) : '=' ∉ e.grantee.printed := by
  cases hg : e.grantee with
  | everyone => simp [Grantee.printed]
  | role name =>
    rw [hg] at h
    have hsafe : name.toList.all safeChar = true := h
    rw [Grantee.printed, putid, if_pos hsafe]
    exact fun hmem => absurd (List.all_eq_true.mp hsafe _ hmem) (by decide)

/-- A plain grantee is read back. -/
theorem plain_read (h : e.grantee.Plain) :
    (if String.ofList e.grantee.printed = "" then Grantee.everyone
      else .role (String.ofList e.grantee.printed)) = e.grantee := by
  cases hg : e.grantee with
  | everyone => rfl
  | role name =>
    rw [hg] at h
    have hsafe : name.toList.all safeChar = true := h
    have hname : name ≠ "" := fun hn => e.named (hg.trans (hn ▸ rfl))
    rw [Grantee.printed, putid, if_pos hsafe, String.ofList_toList, if_neg hname]

/-- The grantee read from a quoted name is not the one that was printed. -/
theorem quoted_misread {name : String} (hg : e.grantee = .role name)
    (hquoted : name.toList.all safeChar = false) (column : String) :
    ∀ g ∈ aclitemGrants (aclitemOut e) column, g.grantee ≠ .role name := by
  have hwho (who : Grantee) (privs : List Char) :
      ∀ g ∈ grantsRead column who privs, g.grantee = who := by
    induction privs with
    | nil => simp [grantsRead]
    | cons c cs ih =>
      rw [grantsRead]
      split
      · exact ih
      · simpa using ih
  have hprinted : e.grantee.printed = (quoted '"' name).toList := by
    rw [hg, Grantee.printed, putid, if_neg (by simp [hquoted])]
  have hout : (aclitemOut e).toList = (quoted '"' name).toList ++
      '=' :: (e.privileges ++ '/' :: putid e.grantor) := by
    rw [aclitemOut, String.toList_ofList, hprinted]
  intro g hmem hgrantee
  unfold aclitemGrants at hmem
  rw [hout, if_pos (by simp)] at hmem
  have hread := hwho _ _ g hmem
  rw [hgrantee] at hread
  -- the name read is what stands before the first "="
  have hname : name.toList = ((quoted '"' name).toList ++
      '=' :: (e.privileges ++ '/' :: putid e.grantor)).takeWhile (· ≠ '=') := by
    split at hread
    · cases hread
    · have heq := congrArg String.toList (Grantee.role.inj hread)
      rwa [String.toList_ofList] at heq
  by_cases heq : '=' ∈ name.toList
  · rw [hname] at heq
    simpa using List.mem_takeWhile_imp heq
  · have hescaped : (name.toList.flatMap fun c => if c = '"' then ['"', c] else [c]).length ≥
        name.toList.length := by
      generalize name.toList = l
      induction l with
      | nil => simp
      | cons c l ih =>
        rw [List.flatMap_cons, List.length_append, List.length_cons]
        split <;> simp only [List.length_cons, List.length_nil] <;> omega
    have hfree : '=' ∉ (quoted '"' name).toList := by
      rw [quoted, String.toList_ofList]
      intro hmem
      rcases List.mem_append.mp hmem with hmem | hmem
      · rcases List.mem_cons.mp hmem with hquote | hmem
        · exact absurd hquote (by decide)
        · obtain ⟨c, hc, hin⟩ := List.mem_flatMap.mp hmem
          have hne : '=' ≠ c := fun h => heq (h ▸ hc)
          split at hin
          · exact absurd hin (by simp [hne])
          · exact absurd hin (by simp [hne])
      · exact absurd hmem (by decide)
    rw [(takeWhile_until hfree).1, quoted, String.toList_ofList] at hname
    have hlength := congrArg List.length hname
    simp only [List.length_cons, List.length_append, List.length_nil] at hlength
    omega

/-- No statement grants MAINTAIN. -/
theorem maintain_unread (item column : String) :
    ∀ g ∈ aclitemGrants item column, g.privilege ≠ .maintain := by
  have hread (who : Grantee) (privs : List Char) :
      ∀ g ∈ grantsRead column who privs, g.privilege ≠ .maintain := by
    induction privs with
    | nil => simp [grantsRead]
    | cons c cs ih =>
      rw [grantsRead]
      split
      · exact ih
      · rename_i p hp
        have hne : p ≠ .maintain := by
          intro h
          rw [h] at hp
          unfold privilegeOf at hp
          split at hp <;> cases hp
        simpa [hne] using ih
  unfold aclitemGrants
  split
  · exact hread _ _
  · simp

end Read

/-! ## When an entry is given back -/

theorem restores_of_plain {e : AclEntry} (hplain : e.grantee.Plain)
    (hmaintain : e.held .maintain = none) : e.Restores := by
  have hheld (p : Privilege) : (if p = .maintain then none else e.held p) = e.held p := by
    split
    · rename_i hp
      rw [hp, hmaintain]
    · rfl
  unfold AclEntry.Restores
  rw [aclitemGrants_printed (plain_ne_eq hplain), plain_read hplain, AclEntry.privileges,
    grantsRead_privileges]
  simp only [hheld]
  rw [execute_privileges e.held e.grantee e.column Privilege.all .empty Privilege.all_nodup
    fun _ _ => rfl]
  funext who column p
  rw [AclEntry.acl]
  by_cases hwho : who = e.grantee ∧ column = e.column
  · rw [if_pos hwho]
    cases hp : e.held p with
    | none => simp [Acl.empty]
    | some o => simp [hwho, Privilege.mem_all]
  · rw [if_neg hwho, if_neg fun h => hwho ⟨h.1, h.2.1⟩]
    rfl

/-- An entry is given back exactly if its grantee is PUBLIC or printed without quotes, and it has no
MAINTAIN. -/
theorem restores_iff (e : AclEntry) :
    e.Restores ↔ e.grantee.Plain ∧ e.held .maintain = none := by
  constructor
  · intro h
    have hat (p : Privilege) :
        Acl.empty.execute (aclitemGrants (aclitemOut e) e.column) e.grantee e.column p =
          e.held p := by
      rw [h, AclEntry.acl, if_pos ⟨rfl, rfl⟩]
    constructor
    · cases hg : e.grantee with
      | everyone => trivial
      | role name =>
        by_contra hquoted
        have hquoted : name.toList.all safeChar = false := by
          simpa [Grantee.Plain] using hquoted
        obtain ⟨p, hp⟩ := e.holds
        refine hp ?_
        rw [← hat p]
        refine execute_frame fun g hmem hto => quoted_misread hg hquoted _ g hmem ?_
        rw [← hto.1, hg]
    · rw [← hat .maintain]
      exact execute_frame fun g hmem hto => maintain_unread _ _ g hmem hto.2.2.symm
  · exact fun h => restores_of_plain h.1 h.2

/-- SELECT for `my role`, printed `"my role"=r/app`; and MAINTAIN for `app`, printed `app=m/app`. -/
theorem quoted_not_restored :
    let select : AclEntry :=
      { grantee := .role "my role", held := fun p => if p = .select then some false else none,
        grantor := "app", named := by decide, holds := ⟨.select, by decide⟩,
        public_plain := nofun, column_level := fun h => absurd rfl h }
    let maintain : AclEntry :=
      { grantee := .role "app", held := fun p => if p = .maintain then some false else none,
        grantor := "app", named := by decide, holds := ⟨.maintain, by decide⟩,
        public_plain := nofun, column_level := fun h => absurd rfl h }
    ¬ select.Restores ∧ ¬ maintain.Restores := by
  intro select maintain
  constructor
  · intro h
    have hat := congrFun (congrFun (congrFun h (.role "my role")) "") .select
    exact absurd hat (by decide)
  · intro h
    have hat := congrFun (congrFun (congrFun h (.role "app")) "") .maintain
    exact absurd hat (by decide)

end Planner
end Laswell
