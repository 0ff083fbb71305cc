import Sisyphus.Foundation.Run
import Sisyphus.Corinth.Images

/-!
# Package transactions are serialisable

However transactions are opened, edited, copied, dropped and committed, the ledger is what the
committed ones make of it one after another, in the order of their commits.  A change of the ledger
gives it a generation that it never had before, so that a transaction which still has the ledger's
authority has seen no change (`Session.Inv`), and committing it is the same as running it on its
own.
-/

set_option autoImplicit false

namespace Sisyphus.Corinth

open Fallible List Option Run Words

/-! ## Commits -/

def Delta.total (counts : Delta) : Nat := counts.installed + counts.removed + counts.upgraded

theorem total_le_deltaLoop (fuel : Nat) (left right : List ResolvedPackage) (counts : Delta) :
    counts.total ≤ (deltaLoop fuel left right counts).total := by
  fun_induction deltaLoop fuel left right counts <;> grind [Delta.total]

/-- Nothing is counted only if there is nothing to count. -/
theorem eq_of_total_deltaLoop {fuel : Nat} {left right : List ResolvedPackage} {counts : Delta}
    (hfuel : left.length + right.length ≤ fuel)
    (h : (deltaLoop fuel left right counts).total = counts.total) : left = right := by
  fun_induction deltaLoop fuel left right counts with
  | case1 left right counts =>
    rw [eq_nil_of_length_eq_zero (show left.length = 0 by omega),
      eq_nil_of_length_eq_zero (show right.length = 0 by omega)]
  | case2 => rfl
  | case7 fuel before left after right counts hlt hgt ih =>
    have hname := UInt64.le_antisymm (UInt64.not_lt.mp hgt) (UInt64.not_lt.mp hlt)
    have hversion : before.versionIdx = after.versionIdx := by
      grind [Delta.total, total_le_deltaLoop]
    obtain rfl : left = right := ih (by grind) (by grind [Delta.total])
    cases before
    cases after
    simp_all
  | _ => grind [Delta.total, total_le_deltaLoop]

/-- A commit publishes the packages of the transaction, under a new generation if they differ. -/
theorem ensures_commit (transaction : PackageTransaction) (ledger : PackageLedger) :
    Ensures (PackageLedger.commit transaction) ledger
      (fun _ next => transaction.base = ledger.authority ∧ next.packages = transaction.packages ∧
        (next = ledger ∨ next.generation.toNat = ledger.generation.toNat + 1))
      (fun _ next => next = ledger) := by
  simp only [PackageLedger.commit, ensures_rules, ensures_ite]
  intro hbase _
  have hbase : transaction.base = ledger.authority := by simpa using hbase
  refine ⟨fun hcounts => ⟨hbase, ?_, .inl trivial⟩,
    fun _ generation hnext => ⟨hbase, .inr (toNat_checkedSucc hnext)⟩⟩
  exact eq_of_total_deltaLoop le_rfl (congrArg Delta.total hcounts)

/-- The transaction that a ledger opens with its own authority. -/
def PackageLedger.opened (ledger : PackageLedger) : PackageTransaction :=
  { base := ledger.authority, packages := ledger.packages, touchedNames := [], isSealed := false }

theorem begin_eq_ok {ledger : PackageLedger} {authority : TransactionAuthority}
    {transaction : PackageTransaction} (h : ledger.begin authority = .ok transaction) :
    transaction = ledger.opened := by
  rw [PackageLedger.begin] at h
  split at h
  · cases h
  · next hauthority =>
    rw [← Except.ok.inj h, not_not.mp hauthority, PackageLedger.opened]

variable {receipt : TransactionReceipt}

/-- Committing a transaction whose calls were made on the ledger that is current. -/
theorem serially_eq {ledger next : PackageLedger} {script : List Edit}
    (h : PackageLedger.commit (script.foldl Edit.apply ledger.opened) ledger = .ok receipt next) :
    serially ledger script = (.ok receipt, next) := by
  have hbegin : ledger.begin ledger.authority = .ok ledger.opened := by
    rw [PackageLedger.begin, if_neg (not_not.mpr rfl), PackageLedger.opened]
  rw [serially, hbegin]
  dsimp only
  rw [h]

/-! ## Sessions -/

/-- The transaction is its script run on the ledger it began with, and since then the ledger has not
gone back to a generation that it had left. -/
structure Session.Inv (ledger : PackageLedger) (session : Session) : Prop where
  began : ∃ first rest, session.seen = first :: rest ∧
    session.transaction = session.script.foldl Edit.apply first.opened ∧
    ∀ l ∈ session.seen, first.generation.toNat ≤ l.generation.toNat
  seen : ∀ l ∈ session.seen, l.generation.toNat ≤ ledger.generation.toNat ∧
    (l.generation = ledger.generation → l = ledger)

namespace Session

variable {ledger next : PackageLedger} {session : Session}

theorem Inv.edit (h : Inv ledger session) (edit : Edit) :
    Inv ledger { session with
      transaction := edit.apply session.transaction
      script := session.script ++ [edit] } := by
  obtain ⟨first, rest, hseen, htransaction, hfirst⟩ := h.began
  refine ⟨⟨first, rest, hseen, ?_, hfirst⟩, h.seen⟩
  rw [foldl_append, ← htransaction]
  rfl

/-- The ledger moves on. -/
theorem Inv.publish (h : Inv ledger session)
    (hnext : next = ledger ∨ next.generation.toNat = ledger.generation.toNat + 1) :
    Inv next { session with seen := session.seen ++ [next] } := by
  obtain ⟨first, rest, hseen, htransaction, hfirst⟩ := h.began
  have hle : ledger.generation.toNat ≤ next.generation.toNat := by
    rcases hnext with rfl | hnext
    · exact le_rfl
    · omega
  have hold : ∀ l ∈ session.seen, l.generation.toNat ≤ next.generation.toNat ∧
      (l.generation = next.generation → l = next) := by
    intro l hl
    obtain ⟨hgeneration, hsame⟩ := h.seen l hl
    refine ⟨hgeneration.trans hle, fun he => ?_⟩
    rcases hnext with rfl | hnext
    · exact hsame he
    · rw [he] at hgeneration
      omega
  have hmem : first ∈ session.seen := by rw [hseen]; exact mem_cons_self ..
  exact ⟨⟨first, rest ++ [next], by rw [hseen]; rfl, htransaction,
    forall_mem_concat.mpr ⟨hfirst, (hold first hmem).1⟩⟩,
    forall_mem_concat.mpr ⟨hold, le_rfl, fun _ => rfl⟩⟩

theorem base_foldl (script : List Edit) (t : PackageTransaction) :
    (script.foldl Edit.apply t).base = t.base := by
  induction script generalizing t with
  | nil => rfl
  | cons edit rest ih => exact (ih _).trans (base_apply t edit)

/-- **A transaction that still has the ledger's authority has seen no other ledger.** -/
theorem Inv.unchanged (h : Inv ledger session)
    (hbase : session.transaction.base = ledger.authority) :
    (∀ l ∈ session.seen, l = ledger) ∧
      session.transaction = session.script.foldl Edit.apply ledger.opened := by
  obtain ⟨first, rest, hseen, htransaction, hfirst⟩ := h.began
  have hgeneration : first.generation = ledger.generation := by
    rw [htransaction, base_foldl] at hbase
    exact congrArg TransactionAuthority.generation hbase
  have hall : ∀ l ∈ session.seen, l = ledger := by
    intro l hl
    obtain ⟨hle, hsame⟩ := h.seen l hl
    refine hsame (UInt64.toNat_inj.mp (Nat.le_antisymm hle ?_))
    rw [← hgeneration]
    exact hfirst l hl
  refine ⟨hall, ?_⟩
  rw [htransaction, hall first (by rw [hseen]; exact mem_cons_self ..)]

end Session

/-! ## Runs -/

namespace System

variable {s : System}

structure Inv (s : System) : Prop where
  sessions : ∀ session, some session ∈ s.sessions → session.Inv s.ledger
  image : Image s.ledger.packages
  /-- The committed scripts, run one at a time, lead to the ledger. -/
  serial : final serially .new s.committed = s.ledger
  accepted : ∀ x ∈ trace serially .new s.committed, ∃ receipt, x.2 = .ok receipt

variable {session : Session}

theorem mem_sessions {id : Nat} (h : s.session id = some session) :
    some session ∈ s.sessions := by
  rw [System.session, join_eq_some_iff] at h
  exact mem_of_getElem? h

/-- The transactions may change as long as each of them stands for what it has seen. -/
theorem Inv.with_sessions (hinv : Inv s) {sessions : List (Option Session)}
    (h : ∀ session, some session ∈ sessions →
      some session ∈ s.sessions ∨ session.Inv s.ledger) : Inv { s with sessions } :=
  { hinv with sessions := fun session hmem => (h session hmem).elim (hinv.sessions session) id }

theorem Image.foldl {t : PackageTransaction} (h : Image t.packages) (script : List Edit) :
    Image (script.foldl Edit.apply t).packages := by
  induction script generalizing t with
  | nil => exact h
  | cons edit rest ih => exact ih (h.apply edit)

theorem Inv.publish (hinv : Inv s) (hmem : some session ∈ s.sessions) {next : PackageLedger}
    (heq : PackageLedger.commit session.transaction s.ledger = .ok receipt next) :
    Inv (s.publish next session.script) := by
  obtain ⟨hbase, hpackages, hnext⟩ := (ensures_commit session.transaction s.ledger).of_ok heq
  obtain ⟨-, htransaction⟩ := (hinv.sessions session hmem).unchanged hbase
  have hopened : Image s.ledger.opened.packages := hinv.image
  have himage : Image next.packages := by
    rw [hpackages, htransaction]
    exact Image.foldl hopened session.script
  have hserial : serially s.ledger session.script = (.ok receipt, next) :=
    serially_eq (htransaction ▸ heq)
  -- A session of the new system is one of the old system that has seen the new ledger.
  have hold : ∀ session', some session' ∈ (s.publish next session.script).sessions →
      ∃ old, some old ∈ s.sessions ∧ session' = { old with seen := old.seen ++ [next] } := by
    intro session' hmem'
    obtain ⟨old?, hold, hmap⟩ := mem_map.mp hmem'
    obtain ⟨old, rfl, hsession⟩ := map_eq_some_iff.mp hmap
    exact ⟨old, hold, hsession.symm⟩
  refine ⟨fun session' hmem' => ?_, himage, ?_, fun x hx => ?_⟩
  · obtain ⟨old, hold, rfl⟩ := hold session' hmem'
    exact (hinv.sessions old hold).publish hnext
  · rw [System.publish, final_append, hinv.serial]
    exact congrArg Prod.snd hserial
  · rw [System.publish, trace_append, hinv.serial] at hx
    exact forall_mem_concat.mpr ⟨hinv.accepted, receipt, congrArg Prod.fst hserial⟩ x hx

theorem Inv.perform (hinv : Inv s) (action : Action) : Inv (s.perform action).2 := by
  cases action with
  | begin authority =>
    rw [System.perform]
    split
    · exact hinv
    · next transaction hbegin =>
      obtain rfl := begin_eq_ok hbegin
      refine hinv.with_sessions fun session hmem => ?_
      refine (mem_append.mp hmem).imp_right fun hnew => ?_
      obtain rfl := some.inj (mem_singleton.mp hnew)
      exact ⟨⟨s.ledger, [], rfl, rfl, forall_mem_singleton.mpr le_rfl⟩,
        forall_mem_singleton.mpr ⟨le_rfl, fun _ => rfl⟩⟩
  | edit id edit =>
    rw [System.perform]
    split
    · exact hinv
    · next session hsession =>
      have hmem := mem_sessions hsession
      refine hinv.with_sessions fun session' hmem' => ?_
      refine (mem_or_eq_of_mem_set hmem').imp_right fun hnew => ?_
      obtain rfl := some.inj hnew
      exact (hinv.sessions session hmem).edit edit
  | commit id =>
    rw [System.perform]
    split
    · exact hinv
    · next session hsession =>
      rcases (ensures_commit session.transaction s.ledger).cases with
        ⟨receipt, next, heq, -⟩ | ⟨e, next, heq, rfl⟩
      · rw [heq]
        exact hinv.publish (mem_sessions hsession) heq
      · rw [heq]
        exact hinv
  | drop id =>
    refine hinv.with_sessions fun session hmem => ?_
    refine (mem_or_eq_of_mem_set hmem).imp_right fun hnew => ?_
    cases hnew
  | copy id =>
    rw [System.perform]
    split
    · exact hinv
    · next session hsession =>
      refine hinv.with_sessions fun session' hmem => .inl ?_
      exact forall_mem_concat.mpr ⟨fun _ h => h, mem_sessions hsession⟩ _ hmem

/-- The system after a sequence of calls. -/
def after (actions : List Action) : System := final System.perform .new actions

theorem inv_after (actions : List Action) : Inv (after actions) := by
  refine invariant_final (fun _ action hinv => hinv.perform action) ?_
  refine ⟨fun session hmem => ?_, .nil, rfl, fun x hx => ?_⟩
  · cases hmem
  · cases hx

/-- A call that is not a successful commit leaves the ledger alone. -/
theorem perform_ledger (s : System) (action : Action) :
    (∃ id receipt, action = .commit id ∧ (s.perform action).1 = .ok (.receipt receipt)) ∨
      (s.perform action).2.ledger = s.ledger ∧ (s.perform action).2.committed = s.committed := by
  cases action with
  | begin authority | edit id edit =>
    rw [System.perform]
    split <;> exact .inr ⟨rfl, rfl⟩
  | commit id =>
    rw [System.perform]
    split
    · exact .inr ⟨rfl, rfl⟩
    · next session _ =>
      rcases (ensures_commit session.transaction s.ledger).cases with
        ⟨receipt, next, heq, -⟩ | ⟨e, next, heq, rfl⟩
      · rw [heq]
        exact .inl ⟨id, receipt, rfl, rfl⟩
      · rw [heq]
        exact .inr ⟨rfl, rfl⟩
  | drop id => exact .inr ⟨rfl, rfl⟩
  | copy id =>
    rw [System.perform]
    split <;> exact .inr ⟨rfl, rfl⟩

/-- A commit that succeeds finds the ledger that the transaction began with, and publishes what the
transaction has made of it. -/
theorem Inv.commit_unchanged (hinv : Inv s) {id : Nat} (hsession : s.session id = some session)
    (hok : (s.perform (.commit id)).1 = .ok (.receipt receipt)) :
    (∀ l ∈ session.seen, l = s.ledger) ∧
      (s.perform (.commit id)).2.ledger.packages = session.transaction.packages := by
  rw [System.perform, hsession] at hok ⊢
  dsimp only at hok ⊢
  rcases (ensures_commit session.transaction s.ledger).cases with
    ⟨_, next, heq, hbase, hpackages, -⟩ | ⟨e, next, heq, -⟩
  · refine ⟨((hinv.sessions session (mem_sessions hsession)).unchanged hbase).1, ?_⟩
    rw [heq]
    exact hpackages
  · rw [heq] at hok
    cases hok

/-- **Package transactions are serialisable.**  After every interleaving of calls, a transaction can
be committed only if every ledger that it has seen is the current one, and publishes its packages;
the ledger is the result of running the committed scripts one after another in the order of their
commits, each of which succeeds; and no call but a successful commit changes anything about that. -/
theorem serialisable (actions : List Action) :
    (∀ id session receipt, (after actions).session id = some session →
      ((after actions).perform (.commit id)).1 = .ok (.receipt receipt) →
      (∀ l ∈ session.seen, l = (after actions).ledger) ∧
        ((after actions).perform (.commit id)).2.ledger.packages = session.transaction.packages) ∧
    final serially .new (after actions).committed = (after actions).ledger ∧
    (∀ x ∈ trace serially .new (after actions).committed, ∃ receipt, x.2 = .ok receipt) ∧
    ∀ action, (∃ id receipt, action = .commit id ∧
        ((after actions).perform action).1 = .ok (.receipt receipt)) ∨
      ((after actions).perform action).2.ledger = (after actions).ledger ∧
        ((after actions).perform action).2.committed = (after actions).committed := by
  have hinv := inv_after actions
  exact ⟨fun id session receipt hsession hok => hinv.commit_unchanged hsession hok, hinv.serial,
    hinv.accepted, perform_ledger _⟩

/-- **The ledger stays in order** in every interleaving, and `version_of` finds what it has. -/
theorem versionOf_eq_some_iff (actions : List Action) :
    let ledger := (after actions).ledger
    Image ledger.packages ∧ ∀ nameHash version,
      ledger.versionOf nameHash = some version ↔ ⟨nameHash, version⟩ ∈ ledger.packages := by
  have himage := (inv_after actions).image
  refine ⟨himage, fun nameHash version => ?_⟩
  rw [PackageLedger.versionOf]
  split
  next hfind =>
    obtain ⟨package, hget, rfl⟩ := findName_eq_ok hfind
    have hmem := mem_of_getElem? hget
    have hnodup := (pairwise_iff_names.mp himage.ordered).imp UInt64.ne_of_lt
    rw [hget, Option.map_some, some.injEq]
    refine ⟨fun h => h ▸ hmem, fun h => ?_⟩
    rw [inj_on_of_nodup_map hnodup hmem h rfl]
  next index hfind =>
    obtain ⟨-, hbefore, hafter⟩ := findName_eq_error himage.ordered hfind
    refine iff_of_false nofun fun h => ?_
    rw [← take_append_drop index (after actions).ledger.packages, mem_append] at h
    exact UInt64.lt_irrefl _ (h.elim (hbefore _) (hafter _))

/-! Two transactions on the empty ledger, of which one is stale when it is committed. -/

def rivals : List Action :=
  [.begin PackageLedger.new.authority, .begin PackageLedger.new.authority,
    .edit 0 (.install ⟨1, 7⟩), .edit 1 (.install ⟨2, 9⟩), .commit 0, .commit 1]

example : (after rivals).ledger = { packages := [⟨1, 7⟩], generation := 1 } ∧
    (after rivals).committed = [[.install ⟨1, 7⟩]] := by
  decide +kernel

end System

end Sisyphus.Corinth
