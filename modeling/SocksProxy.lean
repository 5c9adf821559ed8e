import SocksProxy.Lib.Run
import SocksProxy.Proxy
import SocksProxy.InterestSound
import SocksProxy.GreetingSound
import SocksProxy.WaitSound
import SocksProxy.CloseSound
import SocksProxy.RelaySound
import SocksProxy.DuplexSound
import SocksProxy.ReplySound
import SocksProxy.ConnectSound
import SocksProxy.RefusalSound
import SocksProxy.AdminSound
import SocksProxy.ServiceSound
import SocksProxy.ConsumeSound
import SocksProxy.RoomSound
import SocksProxy.UserMap
import SocksProxy.StringSound
import SocksProxy.ListingSound
import SocksProxy.TransferSound
import SocksProxy.ClientSound
import SocksProxy.LoginSound
import SocksProxy.TargetSound
import SocksProxy.ChunkSound
import SocksProxy.ConcurrentSound
import SocksProxy.IterationSound
import SocksProxy.BufferSound
import SocksProxy.Parser.StrcmpiSound
import SocksProxy.StmTrace
import SocksProxy.FieldSound
import SocksProxy.MarshalSound
import SocksProxy.CapacitySound
import SocksProxy.SniffSound
import SocksProxy.Pop3LimitSound
import SocksProxy.SignInSound
import SocksProxy.ApartSound
import SocksProxy.Faithful
import SocksProxy.Crash
import SocksProxy.MainLoopSound
import SocksProxy.Ledger
import SocksProxy.AwaitSound
import SocksProxy.Boot
import SocksProxy.BootSound
