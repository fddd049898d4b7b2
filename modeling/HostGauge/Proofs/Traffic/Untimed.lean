import HostGauge.Traffic

/-!
Samples of interfaces up to their times. The records between two tables of samples turn on no
time, so forgetting the times goes past everything that is done with the samples.
-/
namespace HostGauge

namespace InterfaceSample

def untimed (s : InterfaceSample) : InterfaceSample := { s with time := 0 }

theorem ofRows_untimed (isVirtual : String → Bool) (up : List String) (now : Moment)
    (rows : List InterfaceRow) :
    (ofRows isVirtual up now rows).map untimed = ofRows isVirtual up 0 rows := by
  rw [ofRows, ofRows, Table.map_ofList, List.map_map]
  rfl

theorem readAll_untimed (host : Host) (root : String) (now : Moment) :
    (readAll host root now).map (·.map untimed) = readAll host root 0 := by
  simp only [readAll]
  cases host.readText (Path.joinAll root ["proc", "net", "dev"]) with
  | error cause => rfl
  | ok text => exact congrArg Except.ok (ofRows_untimed _ _ now _)

end InterfaceSample

namespace Traffic

def untimed (t : Traffic) : Traffic := { t with elapsed := .zero }

theorem record?_untimed (previous : Table InterfaceSample) (m : CounterModulus) (device : String)
    (now : InterfaceSample) :
    record? (previous.map .untimed) m device now.untimed =
      (record? previous m device now).map untimed := by
  unfold record?
  rw [Table.find?_map]
  cases previous.find? device with
  | none =>
      show (if now.up then _ else _) = Option.map untimed (if now.up then _ else _)
      split <;> rfl
  | some before =>
      show (if now.up || (since now before m).isActive then _ else _) =
        Option.map untimed (if now.up || (since now before m).isActive then _ else _)
      split <;> rfl

theorem between_untimed (previous current : Table InterfaceSample) (m : CounterModulus) :
    between (previous.map .untimed) (current.map .untimed) m =
      (between previous current m).map untimed := by
  have hrecords : ((current.map InterfaceSample.untimed).entries.filterMap fun e =>
        record? (previous.map .untimed) m e.1 e.2) =
      (current.entries.filterMap fun e => record? previous m e.1 e.2).map untimed := by
    rw [Table.entries_map, List.filterMap_map, List.map_filterMap]
    congr 1
    funext e
    exact record?_untimed previous m e.1 e.2
  have hsort := List.map_mergeSort (f := untimed) (r := fun a b => a.device ≤ b.device)
    (s := fun a b => a.device ≤ b.device)
    (l := current.entries.filterMap fun e => record? previous m e.1 e.2) fun _ _ _ _ => rfl
  rw [between, hrecords, between, hsort]

end Traffic

end HostGauge
