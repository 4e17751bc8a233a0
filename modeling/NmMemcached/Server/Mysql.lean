import NmMemcached.Lib.Hex
import NmMemcached.Server.OnRecieve
import NmMemcached.Server.Replica

/-!
# Mysql — the database behind the server

MySQL is a parameter (`Mysql`): it executes statements, holds kvs and writes a binary log.
`Mysql.Documented` is what the server relies on: the statement of a SET stores the bytes of its
literal, and logs a WRITE_ROWS event for a new key or an UPDATE_ROWS event with both images for a
key that exists, each behind a table map of kvs.

`memMysql` is an engine that behaves so for every statement of a SET.
-/

namespace NmMemcached
namespace Server

open Lib Base Net Table

/-! ## The documented behaviour -/

structure Mysql (Db : Type) where
  query : Db → List Char → Int × Db
  /-- The rows of kvs. -/
  kvs : Db → Kvs
  /-- The binary log, oldest event first. -/
  binlog : Db → List BinaryLogEvent

/-- A row of kvs with its three columns. -/
def IsRow (row : RowOfFields) (key : Nat) (val : List UInt8) : Prop :=
  ∃ idf keyf valf : Field, row = [idf, keyf, valf] ∧ keyf.toLong = key ∧ valf.asBlob = some val

/-- What a statement that changes one row of kvs logs: a table map, the rows event, and events of
other types around them. -/
def Logged (chunk : List BinaryLogEvent) (ev : RowsEvent) : Prop :=
  ∃ before between after : List BinaryLogEvent,
    (∀ e ∈ before ++ between ++ after, e = .other) ∧
      chunk = before ++ [.tableMap { tableId := ev.tableId, tblnam := tblKvs }] ++ between ++
        [.rows ev] ++ after

/-- The documented behaviour of the statement of a SET that reports success. -/
structure Mysql.Documented {Db : Type} (my : Mysql Db) : Prop where
  /-- The literal becomes the value of the key. -/
  stores : ∀ db key digits, key < tableSize → digits ≠ [] → (∀ c ∈ digits, Hex.isDigit c = true) →
    (my.query db (setStatement key digits)).1 = 0 →
      my.kvs (my.query db (setStatement key digits)).2 =
        Function.update (my.kvs db) key (some (Hex.literal digits))
  /-- A new key is logged as a WRITE_ROWS event. -/
  logsWrite : ∀ db key digits, key < tableSize → digits ≠ [] →
    (∀ c ∈ digits, Hex.isDigit c = true) →
    (my.query db (setStatement key digits)).1 = 0 → my.kvs db key = none →
      ∃ chunk tableId row, Logged chunk ⟨.write, tableId, row, []⟩ ∧
        IsRow row key (Hex.literal digits) ∧
        my.binlog (my.query db (setStatement key digits)).2 = my.binlog db ++ chunk
  /-- An overwritten key is logged as an UPDATE_ROWS event with both images. -/
  logsUpdate : ∀ db key digits old, key < tableSize → digits ≠ [] →
    (∀ c ∈ digits, Hex.isDigit c = true) →
    (my.query db (setStatement key digits)).1 = 0 → my.kvs db key = some old →
      ∃ chunk tableId row row', Logged chunk ⟨.update, tableId, row, [row']⟩ ∧
        IsRow row key old ∧ IsRow row' key (Hex.literal digits) ∧
        my.binlog (my.query db (setStatement key digits)).2 = my.binlog db ++ chunk

/-! ## An engine in memory -/

structure MemDb where
  kvs : Kvs := Kvs.empty
  binlog : List BinaryLogEvent := []

namespace MemDb

/-- The statement up to the key. -/
def insertInto : List Char := "INSERT INTO kvs(`key`,`val`)VALUES(".toList

def keyText (sql : List Char) : List Char :=
  (sql.drop insertInto.length).takeWhile Char.isDigit

/-- The digits of the first literal; `,0x` stands between it and the key. -/
def literalText (sql : List Char) : List Char :=
  (((sql.drop insertInto.length).dropWhile Char.isDigit).drop 3).takeWhile Hex.isDigit

/-- The rows event of a key that gets a value. -/
def rowsEvent (key : Nat) (val : List UInt8) : Option (List UInt8) → RowsEvent
  | none => { type := .write, tableId := 1, first := kvsRow 1 key val, rest := [] }
  | some old =>
      { type := .update, tableId := 1, first := kvsRow 1 key old, rest := [kvsRow 1 key val] }

def insert (db : MemDb) (key : Nat) (val : List UInt8) : MemDb :=
  { kvs := Function.update db.kvs key (some val)
    binlog := db.binlog ++
      [.tableMap { tableId := 1, tblnam := tblKvs }, .rows (rowsEvent key val (db.kvs key))] }

def query (db : MemDb) (sql : List Char) : Int × MemDb :=
  (0, db.insert (Nat.ofDigitChars 10 (keyText sql) 0) (Hex.literal (literalText sql)))

theorem setStatement_eq (key : Nat) (digits : List Char) :
    setStatement key digits = insertInto ++ (Nat.toDigits 10 key ++
      (",0x".toList ++ (digits ++ (")ON DUPLICATE KEY UPDATE val = 0x".toList ++ digits)))) := by
  have hassoc : ∀ p k c ds r : List Char,
      p ++ k ++ c ++ ds ++ r ++ ds = p ++ (k ++ (c ++ (ds ++ (r ++ ds)))) := by
    intro p k c ds r
    simp only [List.append_assoc]
  exact hassoc _ _ _ _ _

theorem isDigit_toDigits {key : Nat} : ∀ c ∈ Nat.toDigits 10 key, c.isDigit = true :=
  fun _ hc => Nat.isDigit_of_mem_toDigits (by decide) (by decide) hc

theorem keyText_setStatement (key : Nat) (digits : List Char) :
    keyText (setStatement key digits) = Nat.toDigits 10 key := by
  have hcomma : ∀ rest : List Char, (",0x".toList ++ rest).takeWhile Char.isDigit = [] :=
    fun _ => rfl
  rw [keyText, setStatement_eq, List.drop_left, List.takeWhile_append_of_pos isDigit_toDigits,
    hcomma, List.append_nil]

theorem literalText_setStatement (key : Nat) {digits : List Char}
    (h : ∀ c ∈ digits, Hex.isDigit c = true) :
    literalText (setStatement key digits) = digits := by
  have hcomma : ∀ rest : List Char,
      (",0x".toList ++ rest).dropWhile Char.isDigit = ",0x".toList ++ rest := fun _ => rfl
  have hthree : ∀ rest : List Char, (",0x".toList ++ rest).drop 3 = rest := fun _ => rfl
  -- The digits end at the parenthesis, in front of the second literal.
  have hparen : ∀ rest : List Char,
      (")ON DUPLICATE KEY UPDATE val = 0x".toList ++ rest).takeWhile Hex.isDigit = [] :=
    fun _ => rfl
  rw [literalText, setStatement_eq, List.drop_left,
    List.dropWhile_append_of_pos isDigit_toDigits, hcomma, hthree,
    List.takeWhile_append_of_pos h, hparen, List.append_nil]

/-- The engine takes the statement of a SET apart. -/
theorem query_setStatement (db : MemDb) (key : Nat) {digits : List Char}
    (h : ∀ c ∈ digits, Hex.isDigit c = true) :
    db.query (setStatement key digits) = (0, db.insert key (Hex.literal digits)) := by
  rw [query, keyText_setStatement, literalText_setStatement key h, Nat.ofDigitChars_ten_toDigits]

theorem isRow_kvsRow (key : Nat) (val : List UInt8) : IsRow (kvsRow 1 key val) key val :=
  ⟨_, _, _, rfl, rfl, rfl⟩

theorem logged_map_rows (ev : RowsEvent) :
    Logged [.tableMap { tableId := ev.tableId, tblnam := tblKvs }, .rows ev] ev :=
  ⟨[], [], [], by simp, rfl⟩

end MemDb

def memMysql : Mysql MemDb :=
  { query := MemDb.query
    kvs := MemDb.kvs
    binlog := MemDb.binlog }

theorem memMysql_documented : memMysql.Documented := by
  refine ⟨?_, ?_, ?_⟩
  · intro db key digits _ _ hdigits _
    simp only [memMysql]
    rw [MemDb.query_setStatement db key hdigits]
    rfl
  · intro db key digits _ _ hdigits _ hnew
    refine ⟨_, 1, _, MemDb.logged_map_rows _, MemDb.isRow_kvsRow key _, ?_⟩
    simp only [memMysql] at hnew ⊢
    rw [MemDb.query_setStatement db key hdigits]
    simp only [MemDb.insert, hnew]
    rfl
  · intro db key digits old _ _ hdigits _ hold
    refine ⟨_, 1, _, _, MemDb.logged_map_rows _, MemDb.isRow_kvsRow key old,
      MemDb.isRow_kvsRow key _, ?_⟩
    simp only [memMysql] at hold ⊢
    rw [MemDb.query_setStatement db key hdigits]
    simp only [MemDb.insert, hold]
    rfl

end Server
end NmMemcached
