import LibreKV.Lib.Transition
import LibreKV.Lib.Exchange
import LibreKV.Cuckoo.Put
import LibreKV.Cuckoo.Walk
import LibreKV.Cuckoo.PutSound
import LibreKV.Cuckoo.PutRuns
import LibreKV.Cuckoo.ImmutableSound
import LibreKV.Cuckoo.KeyIdentity
import LibreKV.Lib.FirstFit
import LibreKV.LinearHash.Table
import LibreKV.LinearHash.Insert
import LibreKV.LinearHash.Put2
import LibreKV.LinearHash.Split
import LibreKV.LinearHash.Put2Sound
import LibreKV.Lib.LinearAddress
import LibreKV.LinearHash.Put2Runs
import LibreKV.LinearHash.Put
import LibreKV.LinearHash.PutSound
import LibreKV.LinearHash.PutRuns
import LibreKV.LinearHash.Counters
import LibreKV.LinearHash.AddressChoice
import LibreKV.Cuckoo.Undo
import LibreKV.Cuckoo.FixedTable
import LibreKV.Cuckoo.Messages
import LibreKV.Cuckoo.FittingRuns
import LibreKV.Cuckoo.Lifecycle
import LibreKV.LinearHash.InsertSound
import LibreKV.LinearHash.Compact
import LibreKV.LinearHash.CreateSound
import LibreKV.LinearHash.Subscripts
import LibreKV.Lib.CString
import LibreKV.Log.Setting
import LibreKV.Log.Printf
import LibreKV.Log.Write
import LibreKV.Log.FileName
import LibreKV.Hash.City
import LibreKV.Lib.Mixing
import LibreKV.Hash.CitySound
import LibreKV.Hash.Collisions
import LibreKV.Hash.Alternatives
import LibreKV.Lib.Buckets
import LibreKV.LinearHash.PutStore
import LibreKV.Cuckoo.Multimap
import LibreKV.Cuckoo.Api
import LibreKV.Log.Records
import LibreKV.Log.Safety
import LibreKV.LinearHash.Put2Limit
import LibreKV.LinearHash.Api
