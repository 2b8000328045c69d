import Mathlib
import AbbeyBot.Library.BinarySearch
import AbbeyBot.Library.History
import AbbeyBot.Wdbx.Store

/-! # Semantic memory

Facts about the members of guilds over a store: the text of a fact is kept as an entry under a key
that joins the guild and the id, its embedding as a vector. The keys say which facts a guild has; the
vectors are searched for those that a query is closest to. -/

namespace AbbeyBot.Wdbx

open AbbeyBot.Library.BinarySearch AbbeyBot.Library.OrderedMap AbbeyBot.Library.PrefixScan
open AbbeyBot.Library.Text AbbeyBot.Library.Word

variable {J : Crates}

/-- A fact as it is given out. -/
structure RecalledFact (J : Crates) where
  id : ℕ
  user : String
  text : String
  at_ : ℕ
  score : J.Score

structure Recall (J : Crates) where
  store : WdbxStore J

/-- `Recall::new`. -/
def Recall.new (J : Crates) : Recall J := ⟨WdbxStore.new J⟩

/-- `fact_key_prefix`. -/
def factKeyPrefix (guild : String) : String := "mem:" ++ guild ++ ":"

/-- `fact_key`. -/
def factKey (guild : String) (id : ℕ) : String := "mem:" ++ guild ++ ":" ++ toString id

/-- `remember`. -/
def Recall.remember (guild user text : String) (at_ : ℕ) (m : Recall J) : ℕ × Recall J :=
  let (id, store) := m.store.insertVector (J.textEmbedding text)
  (id, ⟨store.putKv (factKey guild id) (J.factText ⟨user, text, at_⟩)⟩)

/-- `fact`. -/
def Recall.fact (m : Recall J) (guild : String) (id : ℕ) (score : J.Score) :
    Option (RecalledFact J) := do
  let value ← m.store.getKv (factKey guild id)
  let record ← J.readFact value
  return { id := id, user := record.user, text := record.text, at_ := record.at_, score := score }

/-- `guild_ids`: in the order of numbers, not of keys. -/
def Recall.guildIds (m : Recall J) (guild : String) : List ℕ :=
  let start := factKeyPrefix guild
  let ids := (m.store.kvWithPrefix start).filterMap fun kv =>
    parseU64 (kv.1.toList.drop start.toList.length)
  (ids.mergeSort fun a b => a ≤ b).destutter (· ≠ ·)

/-- `recall_for_user`. -/
def Recall.recallForUser (m : Recall J) (guild user queryText : String) (k : ℕ) :
    List (RecalledFact J) :=
  let ids := (m.guildIds guild).filter fun id =>
    (m.fact guild id J.zero).any fun fact => fact.user = user
  (m.store.search (J.textEmbedding queryText) k (binarySearch ids)).filterMap fun found =>
    m.fact guild found.1 found.2

/-- `forget`. -/
def Recall.forget (guild : String) (id : ℕ) (m : Recall J) : Bool × Recall J :=
  match m.store.removeKv (factKey guild id) with
  | (none, _) => (false, m)
  | (some _, store) => (true, ⟨(store.removeVector id).2⟩)

/-- `facts_for_user`. -/
def Recall.factsForUser (m : Recall J) (guild user : String) : List (RecalledFact J) :=
  ((m.guildIds guild).filterMap fun id => m.fact guild id J.one).filter fun fact => fact.user = user

/-! ### Keys -/

theorem factKey_toList (guild : String) (id : ℕ) :
    (factKey guild id).toList = ("mem:".toList ++ guild.toList) ++ ':' :: (toString id).toList := by
  have hcolon : ":".toList = [':'] := rfl
  simp only [factKey, String.toList_append, List.append_assoc, hcolon, List.singleton_append]

theorem factKeyPrefix_toList (guild : String) :
    (factKeyPrefix guild).toList = ("mem:".toList ++ guild.toList) ++ [':'] := by
  have hcolon : ":".toList = [':'] := rfl
  simp only [factKeyPrefix, String.toList_append, hcolon]

/-- A key names the guild and the id, whatever characters the guild has. -/
theorem factKey_inj {guild guild' : String} {id id' : ℕ} :
    factKey guild id = factKey guild' id' ↔ guild = guild' ∧ id = id' := by
  constructor
  · intro h
    have hl := congrArg String.toList h
    have hcolon : ∀ n : ℕ, ':' ∉ (toString n).toList := not_mem_toString (by decide)
    rw [factKey_toList, factKey_toList, separator_append_inj (hcolon _) (hcolon _),
      List.append_cancel_left_eq] at hl
    exact ⟨String.toList_injective hl.1, toString_injective hl.2⟩
  · rintro ⟨rfl, rfl⟩
    rfl

/-- What a scan of a guild reads as an id is the id of a key of this very guild. -/
theorem factKey_of_prefix {guild guild' : String} {id id' : ℕ} (hid : id ≤ u64Max)
    (hstart : (factKeyPrefix guild').toList <+: (factKey guild id).toList)
    (hparse : parseU64 ((factKey guild id).toList.drop (factKeyPrefix guild').toList.length) =
      some id') : guild' = guild ∧ id' = id := by
  obtain ⟨rest, hrest⟩ := hstart
  rw [← hrest, List.drop_left] at hparse
  rw [factKey_toList, factKeyPrefix_toList, List.append_assoc, List.singleton_append] at hrest
  have hcolon : ':' ∉ rest := not_mem_of_parseU64 hparse (by decide) (by decide)
  rw [separator_append_inj hcolon (not_mem_toString (by decide) id),
    List.append_cancel_left_eq] at hrest
  rw [hrest.2, parseU64_toString hid, Option.some.injEq] at hparse
  exact ⟨String.toList_injective hrest.1, hparse.symm⟩

theorem prefix_factKey (guild : String) (id : ℕ) :
    (factKeyPrefix guild).toList <+: (factKey guild id).toList ∧
      (factKey guild id).toList.drop (factKeyPrefix guild).toList.length =
        (toString id).toList := by
  have heq : (factKey guild id).toList =
      (factKeyPrefix guild).toList ++ (toString id).toList := by
    rw [factKey_toList, factKeyPrefix_toList, List.append_assoc _ [':'], List.singleton_append]
  rw [heq]
  exact ⟨List.prefix_append _ _, List.drop_left⟩

/-! ### Operations -/

inductive Op where
  | remember (guild user text : String) (at_ : ℕ)
  | forget (guild : String) (id : ℕ)
  | restart
  deriving DecidableEq

inductive Out where
  | id (n : ℕ)
  | forgotten (existed : Bool)
  | restarted (saved : Bool)
  deriving DecidableEq

/-- A restart: the memory is saved and loaded from the file; it goes on unsaved if it cannot be
saved. -/
def Recall.restart (m : Recall J) : Bool × Recall J :=
  match m.store.tryRender with
  | .error _ => (false, m)
  | .ok text =>
    match WdbxStore.parse J text with
    | .error _ => (false, m)
    | .ok store => (true, ⟨store⟩)

/-- **The step function** of the memory. -/
def step (J : Crates) (m : Recall J) : Op → Out × Recall J
  | .remember guild user text at_ =>
    (.id (m.remember guild user text at_).1, (m.remember guild user text at_).2)
  | .forget guild id => (.forgotten (m.forget guild id).1, (m.forget guild id).2)
  | .restart => (.restarted m.restart.1, m.restart.2)

/-- What happened to a memory. -/
abbrev History (J : Crates) := List (AbbeyBot.Library.History.Event (Recall J) Op Out)

/-- The memory was reached from the empty one, with this history. -/
abbrev Reaches (J : Crates) (h : History J) (m : Recall J) : Prop :=
  AbbeyBot.Library.History.Run (step J) (Recall.new J) h m

/-- A fact that was remembered, with the id that was returned. -/
structure Memory where
  guild : String
  user : String
  text : String
  at_ : ℕ
  id : ℕ
  deriving DecidableEq

def Memory.record (f : Memory) : FactRecord := ⟨f.user, f.text, f.at_⟩

def Memory.key (f : Memory) : String := factKey f.guild f.id

/-- The fact an event remembered. -/
def remembered? {J : Crates} (e : AbbeyBot.Library.History.Event (Recall J) Op Out) :
    Option Memory :=
  match e.op, e.out with
  | .remember guild user text at_, .id n => some ⟨guild, user, text, at_, n⟩
  | _, _ => none

/-- The facts of a history, the latest first. -/
def remembered (h : History J) : List Memory := h.filterMap remembered?

/-! ### A sample -/

/-- A JSON string without control characters. -/
def quoted (s : String) : String :=
  "\"" ++ String.ofList (s.toList.flatMap fun c =>
    if c = '\x22' ∨ c = '\x5c' then ['\x5c', c] else [c]) ++ "\""

def FactRecord.json (r : FactRecord) : String :=
  "\x7b\"user\":" ++ quoted r.user ++ ",\"text\":" ++ quoted r.text ++ ",\"at\":" ++
    toString r.at_ ++ "\x7d"

def vectorJson (id : ℕ) (values : List ℕ) : String :=
  "\x7b\"type\":\"vector\",\"id\":" ++ toString id ++ ",\"values\":[" ++
    String.intercalate "," (values.map fun x => toString x ++ ".0") ++ "]\x7d"

def kvJson (key value : String) : String :=
  "\x7b\"type\":\"kv\",\"key\":" ++ quoted key ++ ",\"value\":" ++ quoted value ++ "\x7d"

def teaFact : FactRecord := ⟨"u", "tea", 5⟩

def milkFact : FactRecord := ⟨"u", "milk", 5⟩

/-- The lines of a file with the second fact in the guild g. -/
def sampleRead (line : String) : Except String (Value ℕ) :=
  if line = vectorJson 2 [4] then
    .ok (.object [("id", .number 2), ("type", .string "vector"), ("values", .array [.number 4])])
  else if line = kvJson "mem:g:2" milkFact.json then
    .ok (.object [("key", .string "mem:g:2"), ("type", .string "kv"),
      ("value", .string milkFact.json)])
  else .error "expected value"

/-- Texts with small whole numbers for their embedding, and JSON for the two facts in the guild g. -/
def sampleCrates : Crates where
  F32 := ℕ
  Number := ℕ
  Score := ℕ
  isFinite _ := true
  asU64 n := some n
  asF32 n := some n
  display _ := "null"
  readValue := sampleRead
  vectorLine := vectorJson
  kvLine := kvJson
  factText := FactRecord.json
  readFact text := [teaFact, milkFact].find? fun r => r.json = text
  textEmbedding text := [text.length]
  cosine a b := if a = b then 1 else 0
  zero := 0
  one := 1

end AbbeyBot.Wdbx
