import Lonewolf.Order.Delivery
import Lonewolf.Roster.Flags
import Lonewolf.Roster.Federation
import Lonewolf.Roster.Answers
import Lonewolf.Util.Partition
import Lonewolf.Xmpp.AsyncWriter
import Lonewolf.S2s.Authentic
import Lonewolf.Xmpp.LimitedReader
import Lonewolf.Storage.Commits
import Lonewolf.Xmpp.Escaping
import Lonewolf.Roster.Deferred
import Lonewolf.S2s.Crossing
import Lonewolf.S2s.CrlDownloads
import Lonewolf.S2s.LinkTask
import Lonewolf.S2s.LinkValidity
import Lonewolf.Stages.Archive
import Lonewolf.C2s.Link
import Lonewolf.S2s.Backoff
import Lonewolf.Router.Presence
import Lonewolf.Acme.Challenge
import Lonewolf.S2s.Dns
import Lonewolf.Xmpp.AttributeSpacing
import Lonewolf.C2s.RecipientRate
