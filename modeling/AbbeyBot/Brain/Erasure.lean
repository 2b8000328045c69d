import Mathlib
import AbbeyBot.Library.History
import AbbeyBot.Library.Text
import AbbeyBot.Work.Types
import AbbeyBot.Brain.Addenda.Ledger

/-! # The ledger of learning erasures

When a member, or a manager for the whole scope, has learned records removed, callbacks that are
still under way must not bring them back. The ledger keeps one tombstone for each member and scope
under the digest of both, for five minutes after the last removal. It protects exactly what was
inserted, whatever the order of the times. -/

namespace AbbeyBot.Brain

open AbbeyBot.Library.History AbbeyBot.Library.Result AbbeyBot.Library.Text AbbeyBot.Library.Word
open AbbeyBot.Work.Types
open AbbeyBot.Brain.Addenda (memberHash)

/-- `RETENTION_SECS`. -/
def retentionSecs : ℕ := 300

def maxTombstones : ℕ := 4096

/-- The hashes that stand for names. -/
structure Codec where
  /-- The digest of scope and member behind `learning-erasure-v1`. -/
  subjectHash : String → Option String → Hash
  /-- The digest of scope and member hash behind `learning-reactor-erasure-v1`. -/
  reactorHash : String → ℕ → Hash

namespace Codec

variable (C : Codec)

/-- `subject`. -/
def subject (scope : String) (member : Option String) : String := (C.subjectHash scope member).hex

/-- `reactor`. -/
def reactor (scope : String) (hash : ℕ) : String := (C.reactorHash scope hash).hex

end Codec

structure Tombstone where
  subject : String
  reactor : Option String
  at_ : ℕ
  until_ : ℕ
  deriving DecidableEq, Repr

structure ErasureLedger where
  rows : List Tombstone
  deriving DecidableEq, Repr

instance : Inhabited ErasureLedger := ⟨⟨[]⟩⟩

/-- A name that is not empty, at most 256 bytes and without the separator. -/
def identity (value : String) : Bool :=
  value ≠ "" && value.utf8ByteSize ≤ 256 && !value.toList.contains '\x1f'

namespace ErasureLedger

/-- `ErasureLedger::validate`. -/
def validate (l : ErasureLedger) : Except String Unit := do
  ensure (l.rows.length ≤ maxTombstones) "learning erasure capacity exceeded"
  ensure ((∀ r ∈ l.rows, isDigest r.subject = true ∧ r.reactor.all isDigest = true ∧
      checkedAdd r.at_ retentionSecs = some r.until_) ∧ (l.rows.map (·.subject)).Nodup)
    "invalid learning erasure tombstone"

variable (C : Codec)

/-- `ErasureLedger::blocks`. -/
def blocks (l : ErasureLedger) (scope member : String) (admittedAt : ℕ) : Bool :=
  l.rows.any fun r => (r.subject = C.subject scope none || r.subject = C.subject scope (some member))
    && admittedAt ≤ r.until_

/-- `ErasureLedger::blocks_hash`. -/
def blocksHash (l : ErasureLedger) (scope : String) (hash admittedAt : ℕ) : Bool :=
  l.rows.any fun r => (r.subject = C.subject scope none || r.reactor = some (C.reactor scope hash))
    && admittedAt ≤ r.until_

/-- The first row of the subject is put off to a later time. -/
def renew (key : String) (now : ℕ) : List Tombstone → List Tombstone
  | [] => []
  | r :: rest =>
    if r.subject = key then
      (if r.at_ < now then { r with at_ := now, until_ := now + retentionSecs } else r) :: rest
    else r :: renew key now rest

/-- `ErasureLedger::insert`. -/
def insert (l : ErasureLedger) (scope : String) (member : Option String) (now : ℕ) :
    Except WorkError Unit × ErasureLedger :=
  if identity scope = false ∨ member.any (fun m => !identity m) = true then (.error .invalid, l)
  else match checkedAdd now retentionSecs with
  | none => (.error .full, l)
  | some until_ =>
    let key := C.subject scope member
    if l.rows.any (·.subject = key) then (.ok (), ⟨renew key now l.rows⟩)
    else if maxTombstones ≤ l.rows.length then (.error .full, l)
    else
      let row : Tombstone :=
        ⟨key, member.map fun m => C.reactor scope (memberHash m).toNat, now, until_⟩
      (.ok (), ⟨(l.rows ++ [row]).insertionSort fun a b => a.subject ≤ b.subject⟩)

/-! ### What the ledger protects -/

/-- The subject is protected at the time. -/
def Protects (l : ErasureLedger) (key : String) (t : ℕ) : Prop :=
  ∃ r ∈ l.rows, r.subject = key ∧ t ≤ r.until_

theorem blocks_iff {l : ErasureLedger} {scope member : String} {t : ℕ} :
    l.blocks C scope member t = true ↔
      l.Protects (C.subject scope none) t ∨ l.Protects (C.subject scope (some member)) t := by
  simp only [blocks, List.any_eq_true, Bool.and_eq_true, Bool.or_eq_true, decide_eq_true_eq]
  constructor
  · rintro ⟨r, hr, hkey | hkey, ht⟩
    · exact .inl ⟨r, hr, hkey, ht⟩
    · exact .inr ⟨r, hr, hkey, ht⟩
  · rintro (⟨r, hr, hkey, ht⟩ | ⟨r, hr, hkey, ht⟩)
    · exact ⟨r, hr, .inl hkey, ht⟩
    · exact ⟨r, hr, .inr hkey, ht⟩

/-- A row is that of a subject, for the retention after its time. -/
structure Tombstone.Sound (r : Tombstone) : Prop where
  subject : isDigest r.subject = true
  reactor : r.reactor.all isDigest = true
  until_ : r.until_ = r.at_ + retentionSecs
  max : r.until_ ≤ u64Max

/-- The ledger passes its own check. -/
structure Valid (l : ErasureLedger) : Prop where
  length : l.rows.length ≤ maxTombstones
  rows : ∀ r ∈ l.rows, Tombstone.Sound r
  keys : (l.rows.map (·.subject)).Nodup

theorem validate_iff {l : ErasureLedger} : l.validate = .ok () ↔ l.Valid := by
  simp only [validate, bind_eq_ok, exists_unit, ensure_eq_ok, checkedAdd_eq_some]
  constructor
  · rintro ⟨hlength, hrows, hkeys⟩
    refine ⟨hlength, fun r hr => ?_, hkeys⟩
    obtain ⟨hsubject, hreactor, huntil, hmax⟩ := hrows r hr
    exact ⟨hsubject, hreactor, huntil.symm, hmax⟩
  · intro h
    refine ⟨h.length, fun r hr => ?_, h.keys⟩
    have hrow := h.rows r hr
    exact ⟨hrow.subject, hrow.reactor, hrow.until_.symm, hrow.max⟩

/-! ### Insertion -/

theorem map_subject_renew (key : String) (now : ℕ) (rows : List Tombstone) :
    (renew key now rows).map (·.subject) = rows.map (·.subject) := by
  induction rows with
  | nil => rfl
  | cons r rest ih =>
    unfold renew
    split_ifs
    · rfl
    · rfl
    · rw [List.map_cons, ih, List.map_cons]

theorem mem_renew {key : String} {now : ℕ} {rows : List Tombstone} {r : Tombstone}
    (hr : r ∈ renew key now rows) : r ∈ rows ∨
      ∃ r₀ ∈ rows, r₀.subject = key ∧ r = { r₀ with at_ := now, until_ := now + retentionSecs } := by
  induction rows with
  | nil => exact .inl hr
  | cons r₀ rest ih =>
    unfold renew at hr
    split_ifs at hr with hkey hlater
    · rcases List.mem_cons.mp hr with rfl | hr
      · exact .inr ⟨r₀, List.mem_cons_self, hkey, rfl⟩
      · exact .inl (List.mem_cons_of_mem _ hr)
    · exact .inl hr
    · rcases List.mem_cons.mp hr with rfl | hr
      · exact .inl List.mem_cons_self
      · rcases ih hr with hr | ⟨r₁, hr₁, hrest⟩
        · exact .inl (List.mem_cons_of_mem _ hr)
        · exact .inr ⟨r₁, List.mem_cons_of_mem _ hr₁, hrest⟩

/-- A renewal protects what was protected, and its subject for the retention from now. -/
theorem protects_renew {rows : List Tombstone} (hrows : ∀ r ∈ rows, Tombstone.Sound r)
    {key : String} (hkey : ∃ r ∈ rows, r.subject = key) {now : ℕ} {k : String} {t : ℕ} :
    Protects ⟨renew key now rows⟩ k t ↔
      Protects ⟨rows⟩ k t ∨ (k = key ∧ t ≤ now + retentionSecs) := by
  induction rows with
  | nil =>
    obtain ⟨r, hr, -⟩ := hkey
    cases hr
  | cons r rest ih =>
    have hcons : ∀ (r' : Tombstone) (rest' : List Tombstone), Protects ⟨r' :: rest'⟩ k t ↔
        (r'.subject = k ∧ t ≤ r'.until_) ∨ Protects ⟨rest'⟩ k t := by
      intro r' rest'
      simp [Protects]
    have hsound := hrows r List.mem_cons_self
    have huntil := hsound.until_
    unfold renew
    by_cases hr : r.subject = key
    · rw [if_pos hr, hcons, hcons]
      split_ifs with hlater
      · constructor
        · rintro (⟨hk, ht⟩ | hrest)
          · exact .inr ⟨hk.symm.trans hr, ht⟩
          · exact .inl (.inr hrest)
        · rintro ((⟨hk, ht⟩ | hrest) | ⟨hk, ht⟩)
          · refine .inl ⟨hk, ?_⟩
            show t ≤ now + retentionSecs
            omega
          · exact .inr hrest
          · exact .inl ⟨hr.trans hk.symm, ht⟩
      · constructor
        · exact .inl
        · rintro (h | ⟨hk, ht⟩)
          · exact h
          · exact .inl ⟨hr.trans hk.symm, by omega⟩
    · rw [if_neg hr, hcons, hcons]
      have hrest : ∃ r' ∈ rest, r'.subject = key := by
        obtain ⟨r', hr', hk⟩ := hkey
        rcases List.mem_cons.mp hr' with rfl | hr'
        · exact absurd hk hr
        · exact ⟨r', hr', hk⟩
      rw [ih (fun r' hr' => hrows r' (List.mem_cons_of_mem _ hr')) hrest, or_assoc]

/-- An insertion is refused and changes nothing, or protects its subject for the retention from now,
and nothing else. -/
theorem insert_cases {l : ErasureLedger} (hl : l.Valid) (scope : String) (member : Option String)
    (now : ℕ) :
    (∃ e, l.insert C scope member now = (.error e, l)) ∨
    ∃ l', l.insert C scope member now = (.ok (), l') ∧ l'.Valid ∧
      ∀ k t, l'.Protects k t ↔
        l.Protects k t ∨ (k = C.subject scope member ∧ t ≤ now + retentionSecs) := by
  unfold insert
  by_cases hname : identity scope = false ∨ member.any (fun m => !identity m) = true
  · rw [if_pos hname]
    exact .inl ⟨_, rfl⟩
  · rw [if_neg hname]
    cases huntil : checkedAdd now retentionSecs with
    | none => exact .inl ⟨_, rfl⟩
    | some limit =>
      obtain ⟨rfl, hmax⟩ := checkedAdd_eq_some.mp huntil
      dsimp only
      by_cases hknown : l.rows.any (·.subject = C.subject scope member) = true
      · rw [if_pos hknown]
        have hkey : ∃ r ∈ l.rows, r.subject = C.subject scope member := by
          simpa using hknown
        refine .inr ⟨_, rfl, ⟨?_, fun r hr => ?_, ?_⟩, fun k t => protects_renew hl.rows hkey⟩
        · have hlength := congrArg List.length (map_subject_renew (C.subject scope member) now l.rows)
          rw [List.length_map, List.length_map] at hlength
          exact hlength ▸ hl.length
        · rcases mem_renew hr with hr | ⟨r₀, hr₀, -, rfl⟩
          · exact hl.rows r hr
          · have hrow := hl.rows r₀ hr₀
            exact ⟨hrow.subject, hrow.reactor, rfl, hmax⟩
        · show ((renew _ now l.rows).map (·.subject)).Nodup
          rw [map_subject_renew]
          exact hl.keys
      · rw [if_neg hknown]
        by_cases hfull : maxTombstones ≤ l.rows.length
        · rw [if_pos hfull]
          exact .inl ⟨_, rfl⟩
        · rw [if_neg hfull]
          generalize hrow : (⟨C.subject scope member,
            member.map fun m => C.reactor scope (memberHash m).toNat, now, now + retentionSecs⟩ :
              Tombstone) = row
          have hperm := List.perm_insertionSort (fun a b : Tombstone => a.subject ≤ b.subject)
            (l.rows ++ [row])
          have hsubject : row.subject = C.subject scope member := by rw [← hrow]
          have hlimit : row.until_ = now + retentionSecs := by rw [← hrow]
          refine .inr ⟨_, rfl, ⟨?_, fun r hr => ?_, ?_⟩, fun k t => ?_⟩
          · rw [hperm.length_eq, List.length_append, List.length_singleton]
            exact not_le.mp hfull
          · rcases List.mem_append.mp (hperm.mem_iff.mp hr) with hr | hr
            · exact hl.rows r hr
            · rw [List.mem_singleton] at hr
              subst hr
              rw [← hrow]
              refine ⟨isDigest_of_isLowerDigest (Hash.isLowerDigest_hex _), ?_, rfl, hmax⟩
              cases member with
              | none => rfl
              | some m => exact isDigest_of_isLowerDigest (Hash.isLowerDigest_hex _)
          · rw [(hperm.map (·.subject)).nodup_iff, List.map_append, List.nodup_append]
            refine ⟨hl.keys, List.nodup_singleton _, fun key hkey key' hkey' => ?_⟩
            rw [List.map_singleton, List.mem_singleton, hsubject] at hkey'
            rintro rfl
            subst hkey'
            obtain ⟨r, hr, hk⟩ := List.mem_map.mp hkey
            exact hknown (List.any_eq_true.mpr ⟨r, hr, decide_eq_true hk⟩)
          · constructor
            · rintro ⟨r, hr, hk, ht⟩
              rcases List.mem_append.mp (hperm.mem_iff.mp hr) with hr | hr
              · exact .inl ⟨r, hr, hk, ht⟩
              · rw [List.mem_singleton] at hr
                subst hr
                exact .inr ⟨hk.symm.trans hsubject, hlimit ▸ ht⟩
            · rintro (⟨r, hr, hk, ht⟩ | ⟨hk, ht⟩)
              · exact ⟨r, hperm.mem_iff.mpr (List.mem_append_left _ hr), hk, ht⟩
              · exact ⟨row, hperm.mem_iff.mpr (List.mem_append_right _ List.mem_cons_self),
                  hsubject.trans hk.symm, hlimit ▸ ht⟩

/-! ### Along a run -/

structure Insertion where
  scope : String
  member : Option String
  now : ℕ
  deriving DecidableEq, Repr

/-- **The step function** of the ledger. -/
def step (l : ErasureLedger) (op : Insertion) : Except WorkError Unit × ErasureLedger :=
  l.insert C op.scope op.member op.now

abbrev Trace := List (Event ErasureLedger Insertion (Except WorkError Unit))

/-- An accepted insertion covers the time. -/
def Covered (h : Trace) (key : String) (t : ℕ) : Prop :=
  ∃ e ∈ h, e.out = .ok () ∧ C.subject e.op.scope e.op.member = key ∧ t ≤ e.op.now + retentionSecs

/-- The ledger is valid and protects what the accepted insertions cover. -/
structure Inv (h : Trace) (l : ErasureLedger) : Prop where
  valid : l.Valid
  exact_ : ∀ key t, l.Protects key t ↔ Covered C h key t

theorem inv_empty : Inv C [] default where
  valid := ⟨Nat.zero_le _, fun r hr => (List.not_mem_nil hr).elim, List.nodup_nil⟩
  exact_ key t := by
    constructor
    · rintro ⟨r, hr, -⟩
      exact (List.not_mem_nil hr).elim
    · rintro ⟨e, he, -⟩
      exact (List.not_mem_nil he).elim

theorem Inv.step {h : Trace} {l : ErasureLedger} (hinv : Inv C h l) (op : Insertion) :
    Inv C (event (step C) l op :: h) (ErasureLedger.step C l op).2 ∧
    (∀ e, (ErasureLedger.step C l op).1 = .error e → (ErasureLedger.step C l op).2 = l) ∧
    ∀ key t, l.Protects key t → (ErasureLedger.step C l op).2.Protects key t := by
  have hcons : ∀ key t, Covered C (event (ErasureLedger.step C) l op :: h) key t ↔
      ((ErasureLedger.step C l op).1 = .ok () ∧ C.subject op.scope op.member = key ∧
        t ≤ op.now + retentionSecs) ∨ Covered C h key t := by
    intro key t
    simp [Covered, event]
  have hstep : ErasureLedger.step C l op = l.insert C op.scope op.member op.now := rfl
  rcases insert_cases C hinv.valid op.scope op.member op.now with ⟨e, hres⟩ | ⟨l', hres, hvalid, hrows⟩
  · rw [hstep, hres] at hcons ⊢
    refine ⟨⟨hinv.valid, fun key t => ?_⟩, fun _ _ => rfl, fun _ _ h => h⟩
    rw [hcons, hinv.exact_]
    constructor
    · exact .inr
    · rintro (⟨hok, -⟩ | hcovered)
      · cases hok
      · exact hcovered
  · rw [hstep, hres] at hcons ⊢
    refine ⟨⟨hvalid, fun key t => ?_⟩, fun _ herr => (nomatch herr), fun key t hp =>
      (hrows key t).mpr (.inl hp)⟩
    rw [hrows, hcons, hinv.exact_, or_comm]
    refine or_congr_left ?_
    constructor
    · rintro ⟨rfl, ht⟩
      exact ⟨rfl, rfl, ht⟩
    · rintro ⟨-, hkey, ht⟩
      exact ⟨hkey.symm, ht⟩

theorem inv_run {h : Trace} {l : ErasureLedger} (hrun : Run (ErasureLedger.step C) default h l) :
    Inv C h l ∧ ∀ e ∈ h, (∀ err, e.out = .error err → e.after = e.before) ∧
      ∀ key t, e.before.Protects key t → e.after.Protects key t ∧ l.Protects key t := by
  induction hrun with
  | nil => exact ⟨inv_empty C, fun e he => (List.not_mem_nil he).elim⟩
  | @cons h l op hr ih =>
    obtain ⟨hinv, hevents⟩ := ih
    obtain ⟨hnext, hrefused, hkeeps⟩ := hinv.step C op
    refine ⟨hnext, fun e he => ?_⟩
    rcases List.mem_cons.mp he with rfl | he
    · exact ⟨hrefused, fun key t hp => ⟨hkeeps key t hp, hkeeps key t hp⟩⟩
    · refine ⟨(hevents e he).1, fun key t hp => ?_⟩
      obtain ⟨hafter, hnow⟩ := (hevents e he).2 key t hp
      exact ⟨hafter, hkeeps key t hnow⟩

/-- **Erasures.** Along every run of insertions the ledger passes its own check and stays within its
capacity, a refused insertion changes nothing, and what was blocked stays blocked. Where the keys of
the names concerned differ, a member is blocked at a time exactly when an accepted insertion for the
member, or for the whole scope, covers it. -/
theorem erasures_along_run {h : Trace} {l : ErasureLedger}
    (hrun : Run (ErasureLedger.step C) default h l) :
    l.validate = .ok () ∧ l.rows.length ≤ 4096 ∧
    (∀ e ∈ h, (∀ err, e.out = .error err → e.after = e.before) ∧
      ∀ scope member t, e.before.blocks C scope member t = true →
        e.after.blocks C scope member t = true ∧ l.blocks C scope member t = true) ∧
    ∀ names : Set (String × Option String),
      Set.InjOn (fun name => C.subjectHash name.1 name.2) names →
      (∀ e ∈ h, (e.op.scope, e.op.member) ∈ names) →
      ∀ scope member, (scope, none) ∈ names → (scope, some member) ∈ names → ∀ t,
        (l.blocks C scope member t = true ↔ ∃ e ∈ h, e.out = .ok () ∧ e.op.scope = scope ∧
          (e.op.member = none ∨ e.op.member = some member) ∧ t ≤ e.op.now + 300) := by
  obtain ⟨hinv, hevents⟩ := inv_run C hrun
  refine ⟨validate_iff.mpr hinv.valid, hinv.valid.length, fun e he => ?_, ?_⟩
  · refine ⟨(hevents e he).1, fun scope member t hblocks => ?_⟩
    have hkeeps := (hevents e he).2
    rw [blocks_iff] at hblocks
    rw [blocks_iff, blocks_iff]
    rcases hblocks with hscope | hmember
    · exact ⟨.inl (hkeeps _ _ hscope).1, .inl (hkeeps _ _ hscope).2⟩
    · exact ⟨.inr (hkeeps _ _ hmember).1, .inr (hkeeps _ _ hmember).2⟩
  · intro names hinj hops scope member hscope hmember t
    have hkey : ∀ e ∈ h, ∀ m, (scope, m) ∈ names →
        C.subject e.op.scope e.op.member = C.subject scope m → e.op.scope = scope ∧ e.op.member = m := by
      intro e he m hm heq
      have hname := hinj (hops e he) hm (Hash.hex_injective heq)
      exact ⟨congrArg Prod.fst hname, congrArg Prod.snd hname⟩
    rw [blocks_iff, hinv.exact_, hinv.exact_]
    constructor
    · rintro (⟨e, he, hok, heq, ht⟩ | ⟨e, he, hok, heq, ht⟩)
      · obtain ⟨hs, hm⟩ := hkey e he none hscope heq
        exact ⟨e, he, hok, hs, .inl hm, ht⟩
      · obtain ⟨hs, hm⟩ := hkey e he (some member) hmember heq
        exact ⟨e, he, hok, hs, .inr hm, ht⟩
    · rintro ⟨e, he, hok, rfl, hm | hm, ht⟩
      · exact .inl ⟨e, he, hok, by rw [hm], ht⟩
      · exact .inr ⟨e, he, hok, by rw [hm], ht⟩

/-! ### A member is erased, then the scope -/

/-- The hash whose text has the digits of the number. -/
def hashOf (n : ℕ) : Hash :=
  ⟨(List.range 32).map fun i => n / 256 ^ (31 - i) % 256, by
    rw [List.length_map, List.length_range], fun b hb => by
    obtain ⟨i, -, rfl⟩ := List.mem_map.mp hb
    exact Nat.mod_lt _ (by norm_num)⟩

/-- SHA-256 of what the examples name: the scope "garden" and its members "rose", "iris" and "lily". -/
def sampleCodec : Codec where
  subjectHash _ member := hashOf <|
    if member = none then 0x8d6dfea101129a5e78aec74a7c4cddc5ecab8c00a9d30fb23c47f1ee331562e1
    else if member = some "rose" then
      0xa5ca5c215de869bb7b2aaab2306c355f4de362bba0b71b38b1195736aeb31c14
    else if member = some "iris" then
      0xd5e302ac9c5ecf67be427870958a718a3947b6ea50246c1d86595df3e000ee6f
    else 0x5b3f953924d4fefdd82d58f4760766902ae4f4a342b7ead4c582f7de61d89f5f
  reactorHash _ hash := hashOf <|
    if hash = (memberHash "rose").toNat then
      0x8dcf149ca97dc8ee08a6925a0815a3ecf472104c2245fe0d03387f2c9f3e572e
    else if hash = (memberHash "iris").toNat then
      0x3508c1a415f072b0402a49f08ac4059c89ddb24e463acdc8de2c5afa1152ef3f
    else 0x10151b06a41d8eeed814b97b41c34a5747fe18252073408c0b2ef4029451f43a

def sampleOps : List Insertion := [⟨"garden", some "rose", 100⟩, ⟨"garden", none, 50⟩]

def sampleLedger : ErasureLedger := (play (ErasureLedger.step sampleCodec) default sampleOps).2

/-- The names that the sample is about. -/
def sampleNames : Set (String × Option String) := {("garden", none), ("garden", some "rose")}

theorem rose_blocked : sampleLedger.blocks sampleCodec "garden" "rose" 400 = true ∧
    sampleLedger.blocks sampleCodec "garden" "rose" 401 = false := by
  have hinj : Set.InjOn (fun name => sampleCodec.subjectHash name.1 name.2) sampleNames := by
    rintro ⟨s, m⟩ (h | h) ⟨s', m'⟩ (h' | h') heq <;> cases h <;> cases h'
    · rfl
    · exact absurd heq (by decide)
    · exact absurd heq (by decide)
    · rfl
  have hops : ∀ e ∈ (play (ErasureLedger.step sampleCodec) default sampleOps).1,
      (e.op.scope, e.op.member) ∈ sampleNames := by
    intro e he
    have hop := op_mem_of_mem_play he
    simp only [sampleOps, List.mem_cons, List.not_mem_nil, or_false] at hop
    rcases hop with hop | hop <;> rw [hop]
    · exact .inr rfl
    · exact .inl rfl
  have hexact := (erasures_along_run sampleCodec (run_play default sampleOps)).2.2.2 sampleNames hinj
    hops "garden" "rose" (.inl rfl) (.inr rfl)
  refine ⟨(hexact 400).mpr (by decide), ?_⟩
  refine eq_false_of_ne_true fun h => ?_
  have hcovered := (hexact 401).mp h
  revert hcovered
  decide

end ErasureLedger

end AbbeyBot.Brain
