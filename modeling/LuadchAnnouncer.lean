import LuadchAnnouncer.Core.LogMemory
import LuadchAnnouncer.Core.LogBound
import LuadchAnnouncer.Core.LogRotation
import LuadchAnnouncer.Core.Events
import LuadchAnnouncer.Core.AnnounceFilter
import LuadchAnnouncer.Core.AnnounceSafe
import LuadchAnnouncer.Core.AnnounceSfv
import LuadchAnnouncer.Core.AnnounceDaydir
import LuadchAnnouncer.Core.AnnounceExtensions
import LuadchAnnouncer.Core.AnnounceOrder
import LuadchAnnouncer.Core.AnnounceWalk
import LuadchAnnouncer.Core.RulesReload
import LuadchAnnouncer.Core.NetLogin
import LuadchAnnouncer.Core.NetScript
import LuadchAnnouncer.Core.NetBmsg
import LuadchAnnouncer.Core.NetBinf
import LuadchAnnouncer.Core.NetRules
import LuadchAnnouncer.Core.NetSocket
import LuadchAnnouncer.Core.CertAutogen
import LuadchAnnouncer.Core.Adc
import LuadchAnnouncer.Core.SaveTable
import LuadchAnnouncer.Frontends.Announcing
import LuadchAnnouncer.Frontends.StatusFile
import LuadchAnnouncer.Frontends.StatusDisk
import LuadchAnnouncer.Frontends.GuiWorker
import LuadchAnnouncer.Frontends.GuiStatus
import LuadchAnnouncer.Frontends.GuiButtons
import LuadchAnnouncer.Frontends.RuleTags
import LuadchAnnouncer.Frontends.RuleFile
import LuadchAnnouncer.Frontends.Categories
import LuadchAnnouncer.Frontends.CategoriesView
import LuadchAnnouncer.Frontends.ConfigTab
import LuadchAnnouncer.Frontends.NameStores
import LuadchAnnouncer.Basexx.Z85
import LuadchAnnouncer.Core.NetKeyprint
import LuadchAnnouncer.Adclib.TigerPasses
import LuadchAnnouncer.Core.AdcHashes
import LuadchAnnouncer.Core.NetHears
import LuadchAnnouncer.Core.NetDelivers
import LuadchAnnouncer.Frontends.HubTab
import LuadchAnnouncer.Frontends.Restart
