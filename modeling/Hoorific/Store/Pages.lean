/-
Listing resources page by page.  A page is the front of the sorted ids
after the cursor, and the cursor of a page with more behind it is the last
id of the page.  Pages are separate transactions and the store changes
between them, so a traversal is put together from what one page says of the
ids up to its cursor (`PageSpec`).

The first page begins after the empty id, so no resource may have it: a run
of `Mutate` and `ApplyConfig` stores none (`run_named`).

A cursor is the record it encodes.  Left out: its signed text.
-/
import Hoorific.Lib.Bytes
import Hoorific.Store.Compiles

namespace Hoorific

open List Check Table

structure ResourceCursor where
  tenant : String
  subject : String
  role : Role
  kind : ResourceKind
  after : String
  limit : ℤ
  expires : ℤ

structure ResourcePage (kind : ResourceKind) where
  items : List (String × Resource kind)
  nextCursor : Option ResourceCursor

section

variable (cursorKey : Bytes) (s : Store) (now : ℤ) (p : Principal) (kind : ResourceKind)

/-- `SELECT id,version,data FROM resources WHERE tenant_id=? AND kind=? AND id>?
ORDER BY id`. -/
def Store.rowsAfter (tenant after : String) : List (String × Resource kind) :=
  ((s.rowsOf tenant kind).filter fun e => after < e.1).insertionSort fun a b => a.1 ≤ b.1

/-- The id a page begins after. -/
def afterOf (cursor : Option ResourceCursor) : String := cursor.elim "" ResourceCursor.after

/-- A cursor has to be one of this listing. -/
def checkCursor (current : Principal) (limit : ℤ) : Option ResourceCursor → Except StoreError Unit
  | none => pure ()
  | some c => require (decide (32 ≤ cursorKey.length) && c.tenant == current.tenantID &&
      c.subject == current.subjectID && c.role == current.role && c.kind == kind &&
      c.limit == limit && decide (now ≤ c.expires)) (storeError "invalid_cursor" 400)

/-- `List`, for the kinds of the `resources` table. -/
def list (cursor : Option ResourceCursor) (limit : ℤ) : Except StoreError (ResourcePage kind) := do
  let limit := if limit = 0 then 100 else limit
  require (decide (1 ≤ limit) && decide (limit ≤ 500)) (storeError "invalid_limit" 400)
  let current ← resolvePrincipalTx s p
  authorize current false
  checkCursor cursorKey now kind current limit cursor
  let rows := s.rowsAfter kind current.tenantID (afterOf cursor)
  let items := rows.take limit.toNat
  if limit.toNat < rows.length then do
    require (decide (32 ≤ cursorKey.length)) (.plain "cursor signing key unavailable")
    pure ⟨items, some {
      tenant := current.tenantID
      subject := current.subjectID
      role := current.role
      kind := kind
      after := (items.getLast?.map Prod.fst).getD ""
      limit := limit
      expires := now + 15 * 60 }⟩
  else pure ⟨items, none⟩

variable {cursorKey s now p kind} {cursor : Option ResourceCursor} {limit : ℤ}
  {page : ResourcePage kind} {tenant after id : String} {r : Resource kind}

theorem mem_rowsAfter : (id, r) ∈ s.rowsAfter kind tenant after ↔
    s.resource tenant kind id = some r ∧ after < id := by
  rw [Store.rowsAfter, mem_insertionSort, mem_filter, mem_rowsOf, decide_eq_true_eq]

/-- A tenant has an id once in a kind, so the sorted ids increase strictly. -/
theorem rowsAfter_pairwise : (s.rowsAfter kind tenant after).Pairwise fun a b => a.1 < b.1 := by
  have hrows : (s.rowsOf tenant kind).Pairwise fun a b => a.1 ≠ b.1 := by
    refine (nodupKeys_iff_pairwise.1 s.resources.nodupKeys).filterMap _ ?_
    rintro ⟨⟨t, k, i⟩, row⟩ ⟨⟨t', k', i'⟩, row'⟩ hne a ha b hb hid
    split at ha <;> cases ha
    next h =>
    split at hb <;> cases hb
    next h' =>
    obtain ⟨⟨rfl, rfl⟩, rfl, rfl⟩ : (t = tenant ∧ k = kind) ∧ t' = tenant ∧ k' = kind := ⟨h, h'⟩
    cases hid
    exact hne rfl
  have hsorted : (s.rowsAfter kind tenant after).Pairwise fun a b => a.1 ≠ b.1 :=
    (perm_insertionSort _ _).pairwise_iff Ne.symm |>.2 (hrows.filter _)
  exact ((pairwise_insertionSort _ _).and hsorted).imp fun h => lt_of_le_of_ne h.1 h.2

/-- What is known of a page that begins after `after`: it has what is stored,
and everything up to its cursor. -/
structure PageSpec (s : Store) (tenant after : String) (page : ResourcePage kind) : Prop where
  increasing : page.items.Pairwise fun a b => a.1 < b.1
  stored : ∀ e ∈ page.items, s.resource tenant kind e.1 = some e.2 ∧ after < e.1
  forward : ∀ c, page.nextCursor = some c → after < c.after
  upTo : ∀ c, page.nextCursor = some c → ∀ e ∈ page.items, e.1 ≤ c.after
  covers : ∀ id, (s.resource tenant kind id).isSome → after < id →
    id ∈ page.items.map Prod.fst ∨ ∃ c, page.nextCursor = some c ∧ c.after < id

/-- The front of the rows is a page, if its cursor is the last of them. -/
theorem pageSpec_of_take {rows : List (String × Resource kind)} {n : ℕ}
    {next : Option ResourceCursor} (hrows : rows = s.rowsAfter kind tenant after)
    (hlast : ∀ c, next = some c → ∃ r, (rows.take n).getLast? = some (c.after, r))
    (hend : next = none → rows.length ≤ n) : PageSpec s tenant after ⟨rows.take n, next⟩ := by
  have hmem : ∀ id r, (id, r) ∈ rows ↔ s.resource tenant kind id = some r ∧ after < id :=
    fun id r => hrows ▸ mem_rowsAfter
  have hsplit : rows.Pairwise fun a b => a.1 < b.1 := hrows ▸ rowsAfter_pairwise
  rw [← take_append_drop n rows, pairwise_append] at hsplit
  have hstored := fun e (he : e ∈ rows.take n) => (hmem e.1 e.2).1 (mem_of_mem_take he)
  refine ⟨hsplit.1, hstored, ?_, ?_, ?_⟩
  · intro c hc
    obtain ⟨r, hr⟩ := hlast c hc
    exact (hstored _ (mem_of_getLast? hr)).2
  · intro c hc e he
    obtain ⟨r, hr⟩ := hlast c hc
    obtain ⟨front, hfront⟩ := List.getLast?_eq_some_iff.1 hr
    rw [hfront, pairwise_append] at hsplit
    rcases mem_append.1 (hfront ▸ he) with he | he
    · exact (hsplit.1.2.2 e he _ (mem_singleton_self _)).le
    · rw [mem_singleton.1 he]
  · intro id hid hafter
    obtain ⟨r, hr⟩ := Option.isSome_iff_exists.1 hid
    have hrow := (hmem id r).2 ⟨hr, hafter⟩
    rw [← take_append_drop n rows, mem_append] at hrow
    rcases hrow with hfront | hrest
    · exact .inl (mem_map_of_mem hfront)
    cases next with
    | none =>
      rw [drop_of_length_le (hend rfl)] at hrest
      cases hrest
    | some c =>
      obtain ⟨r', hr'⟩ := hlast c rfl
      exact .inr ⟨c, rfl, hsplit.2.2 _ (mem_of_getLast? hr') _ hrest⟩

theorem list_ok (h : list cursorKey s now p kind cursor limit = .ok page) :
    PageSpec s p.tenantID (afterOf cursor) page := by
  simp only [list, bind_ok, require_ok, Bool.and_eq_true, decide_eq_true_eq] at h
  obtain ⟨-, hlimit, current, hcurrent, -, -, -, -, h⟩ := h
  rw [resolvePrincipalTx_tenantID hcurrent] at h
  generalize (if limit = 0 then 100 else limit) = n at h hlimit
  generalize hrows : s.rowsAfter kind p.tenantID (afterOf cursor) = rows at h
  split at h
  next hmore =>
    simp only [bind_ok, pure_ok] at h
    obtain ⟨-, -, rfl⟩ := h
    refine pageSpec_of_take hrows.symm ?_ (by rintro ⟨⟩)
    rintro c ⟨⟩
    have hne : rows.take n.toNat ≠ [] := by
      rw [← length_pos_iff, length_take]
      omega
    rw [List.getLast?_eq_some_getLast hne]
    exact ⟨_, rfl⟩
  next hmore =>
    cases pure_ok.1 h
    exact pageSpec_of_take hrows.symm (by rintro _ ⟨⟩) fun _ => not_lt.1 hmore

variable (platform : Platform) (cursorKey p kind limit) in
/-- The pages from a cursor on, the configuration changing between them: the
stores they are read from, and all their items. -/
inductive Traversal : Option ResourceCursor → List Store → List (String × Resource kind) → Prop
  | last {cursor s items} (now : ℤ) (h : list cursorKey s now p kind cursor limit = .ok ⟨items, none⟩) :
      Traversal cursor [s] items
  | next {cursor s items c stores rest} (now : ℤ) (ops : List ConfigOp)
      (h : list cursorKey s now p kind cursor limit = .ok ⟨items, some c⟩)
      (hrest : Traversal (some c) (run (ConfigOp.step platform) s ops :: stores) rest) :
      Traversal cursor (s :: run (ConfigOp.step platform) s ops :: stores) (items ++ rest)

variable {platform : Platform} {stores : List Store} {items : List (String × Resource kind)}

/-- What one page says of itself, the pages from it on say together. -/
theorem Traversal.spec (h : Traversal cursorKey p kind limit platform cursor stores items) :
    items.Pairwise (fun a b => a.1 < b.1) ∧
    (∀ e ∈ items, (∃ s ∈ stores, s.resource p.tenantID kind e.1 = some e.2) ∧
      afterOf cursor < e.1) ∧
    ∀ id, (∀ s ∈ stores, (s.resource p.tenantID kind id).isSome) →
      afterOf cursor < id → id ∈ items.map Prod.fst := by
  induction h with
  | last now h =>
    have hpage := list_ok h
    refine ⟨hpage.increasing, ?_, ?_⟩
    · intro e he
      obtain ⟨hr, hafter⟩ := hpage.stored e he
      exact ⟨⟨_, mem_singleton_self _, hr⟩, hafter⟩
    · intro id hall hid
      exact (hpage.covers id (hall _ (mem_singleton_self _)) hid).resolve_right nofun
  | @next cursor s items c stores rest now ops h hrest ih =>
    have hpage := list_ok h
    obtain ⟨hincreasing, hstored, hcovers⟩ := ih
    refine ⟨?_, ?_, ?_⟩
    · rw [pairwise_append]
      refine ⟨hpage.increasing, hincreasing, ?_⟩
      intro a ha b hb
      exact (hpage.upTo c rfl a ha).trans_lt (hstored b hb).2
    · intro e he
      rcases mem_append.1 he with he | he
      · obtain ⟨hr, hafter⟩ := hpage.stored e he
        exact ⟨⟨s, mem_cons_self, hr⟩, hafter⟩
      · obtain ⟨⟨s', hs', hr⟩, hafter⟩ := hstored e he
        exact ⟨⟨s', mem_cons_of_mem s hs', hr⟩, (hpage.forward c rfl).trans hafter⟩
    · intro id hall hid
      rw [forall_mem_cons] at hall
      rw [map_append, mem_append]
      rcases hpage.covers id hall.1 hid with hmem | ⟨_, ⟨⟩, hbehind⟩
      · exact .inl hmem
      · exact .inr (hcovers id hall.2 hbehind)

/-! ### No id is empty -/

/-- No resource has the empty id. -/
def Store.Named (s : Store) : Prop := ∀ t kind id x, s.datum t kind id = some x → id ≠ ""

/-- The rest of the system stores no empty id either (`IssueKey` refuses it). -/
def ConfigOp.Named : ConfigOp → Prop
  | .background other => other.Named
  | _ => True

/-- **Step**: only valid ids are stored. -/
theorem Store.Named.step (hs : s.Named) {op : ConfigOp} (hop : op.Named) :
    (op.step platform s).Named := by
  have heffect := step_effect platform op s
  generalize op.step platform s = s' at heffect ⊢
  cases heffect with
  | failed => exact hs
  | wrote happlied _ =>
    intro t kind id x hx
    rcases happlied.origin t kind id x hx with hold | hdone
    · exact hs t kind id x hold
    · exact ne_empty_of_validRef (submitted_valid hdone).1
  | background heq =>
    subst heq
    intro t kind id x hx
    obtain ⟨r, hr, -⟩ := Option.map_eq_some_iff.1 hx
    rcases AList.mem_lookup_union.1 hr with hold | ⟨-, hnew⟩
    · exact hs t kind id _ (Option.map_eq_some_iff.2 ⟨r, (lookup_filterKeys_iff.1 hold).1, rfl⟩)
    · exact hop t kind id _ (Option.map_eq_some_iff.2 ⟨r, (lookup_filterKeys_iff.1 hnew).1, rfl⟩)

theorem run_named {ops : List ConfigOp} (hops : ∀ op ∈ ops, op.Named) :
    (configuredBy platform ops).Named := by
  refine run_inv (fun s op hs hop => Store.Named.step hs hop) ?_ (Along.of_mem hops)
  exact fun _ _ _ _ h => nomatch h

theorem empty_lt {id : String} (h : id ≠ "") : "" < id := by
  rw [String.lt_iff_toList_lt]
  rcases hid : id.toList with - | ⟨c, cs⟩
  · exact absurd (String.toList_eq_nil_iff.1 hid) h
  · exact nil_lt_cons c cs

end

/-- **Pagination is complete**: from the first page on a configured store to a
page without a cursor, with any changes of the configuration between the
pages, the ids increase, every resource that was there at each page is there
once, and nothing is there but resources of the tenant and the kind. -/
theorem pages_complete (platform : Platform) (ops : List ConfigOp) (hops : ∀ op ∈ ops, op.Named)
    (cursorKey : Bytes) (p : Principal) (kind : ResourceKind) (limit : ℤ) (stores : List Store)
    (items : List (String × Resource kind))
    (h : Traversal cursorKey p kind limit platform none (configuredBy platform ops :: stores)
      items) :
    (items.map Prod.fst).Pairwise (· < ·) ∧
    (∀ id, (∀ s ∈ configuredBy platform ops :: stores, (s.resource p.tenantID kind id).isSome) →
      (items.map Prod.fst).count id = 1) ∧
    ∀ e ∈ items, ∃ s ∈ configuredBy platform ops :: stores,
      s.resource p.tenantID kind e.1 = some e.2 := by
  obtain ⟨hpairwise, hstored, hcovers⟩ := h.spec
  have hincreasing : (items.map Prod.fst).Pairwise (· < ·) := pairwise_map.2 hpairwise
  refine ⟨hincreasing, ?_, fun e he => (hstored e he).1⟩
  intro id hall
  obtain ⟨r, hr⟩ := Option.isSome_iff_exists.1 (hall _ mem_cons_self)
  have hid : id ≠ "" := run_named hops _ _ _ _ (Option.map_eq_some_iff.2 ⟨r, hr, rfl⟩)
  have hnodup : (items.map Prod.fst).Nodup := hincreasing.imp ne_of_lt
  exact count_eq_one_of_mem hnodup (hcovers id hall (empty_lt hid))

def twoConnections : List ConfigOp :=
  [.background ownedTenant, ownerPut .connections "c" 0 sampleConnection,
   ownerPut .connections "d" 0 sampleConnection]

/-- Between two pages of one connection each, one is stored before the cursor. -/
theorem two_pages_complete : ∃ stores items,
    Traversal (List.replicate 32 0) ownerPrincipal .connections 1 samplePlatform none
      (configuredBy samplePlatform twoConnections :: stores) items ∧
    (items.map Prod.fst).count "d" = 1 := by
  obtain ⟨stores, items, hpages, hall⟩ : ∃ stores items,
      Traversal (List.replicate 32 0) ownerPrincipal .connections 1 samplePlatform none
        (configuredBy samplePlatform twoConnections :: stores) items ∧
      ∀ s ∈ configuredBy samplePlatform twoConnections :: stores,
        (s.resource "t" .connections "d").isSome :=
    ⟨_, _, .next 0 [ownerPut .connections "b" 0 sampleConnection] rfl (.last 0 rfl), by decide +kernel⟩
  refine ⟨stores, items, hpages, ?_⟩
  refine (pages_complete samplePlatform twoConnections ?_ _ _ _ _ _ _ hpages).2.1 "d" hall
  intro op hop
  simp only [twoConnections, mem_cons, not_mem_nil, or_false] at hop
  rcases hop with rfl | rfl | rfl
  · exact fun _ _ _ _ h => nomatch h
  · trivial
  · trivial

end Hoorific
